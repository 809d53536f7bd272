import Mathlib.Data.List.Basic
import PhpAudit.Proofs.Tree.Arena
import PhpAudit.Scan.Run

/-!
# What a scan makes of a file

The clock is looked at before each rule and after the last one, and a file fails if one of these looks finds
its budget spent (`timedOut_evaluate`); any set of files can be the one that fails so
(`exists_clock_exceeds`). A file that stays within the budget shows what all rules find in it,
less the suppressed lines (`kept_evaluate`). So the findings of a scan are blocks, one for each file that loads
and is done in time, in the order of the files (`findings_run`). Without a budget no block is missing
(`findings_run_of_budget_none`).
-/

namespace PhpAudit

variable {options : ScanOptions}

/-! ## One file -/

/-- Whether one of the looks at the clock finds the budget of a file spent. -/
def ScanOptions.exceeds (options : ScanOptions) (clock : Clock) (rules position : Nat) : Bool :=
  (List.range (rules + 1)).any (options.expired clock position)

/-- What a catalog finds in a file, rule by rule, less what stands on suppressed lines. -/
def Catalog.reported (c : Catalog) (scanner : Scanner) (cx : Context) : List Finding :=
  (c.rules.flatMap (scanner cx)).filter (fun x => !cx.file.suppressed.contains x.line)

theorem timedOut_evaluateFrom (scan : Rule → List Finding) (expired : Nat → Bool) (done : Nat)
    (rules : List Rule) :
    (evaluateFrom scan expired done rules).timedOut =
      (List.range (rules.length + 1)).any fun k => expired (done + k) := by
  induction rules generalizing done with
  | nil => simp [evaluateFrom]
  | cons r rules ih =>
    rw [List.length_cons, List.range_succ_eq_map, List.any_cons, List.any_map]
    unfold evaluateFrom
    split
    · next h => simp [h]
    · next h => simp [h, ih, Function.comp_def, Nat.add_assoc, Nat.add_comm 1]

/-- Rules that are not cut short are all evaluated. -/
theorem findings_evaluateFrom {scan : Rule → List Finding} {expired : Nat → Bool} {done : Nat}
    {rules : List Rule} (h : (evaluateFrom scan expired done rules).timedOut = false) :
    (evaluateFrom scan expired done rules).findings = rules.flatMap scan := by
  induction rules generalizing done with
  | nil => rfl
  | cons r rules ih =>
    unfold evaluateFrom at h ⊢
    split at h
    · cases h
    · next hexpired =>
      rw [if_neg hexpired, List.flatMap_cons]
      exact congrArg (scan r ++ ·) (ih h)

theorem timedOut_evaluate (c : Catalog) (scanner : Scanner) (clock : Clock) (position : Nat)
    (cx : Context) :
    (c.evaluate scanner options clock position cx).timedOut =
      options.exceeds clock c.size position := by
  unfold Catalog.evaluate ScanOptions.exceeds Catalog.size
  rw [timedOut_evaluateFrom]
  simp only [Nat.zero_add]

theorem kept_evaluate (c : Catalog) (scanner : Scanner) (clock : Clock) (position : Nat)
    (cx : Context) :
    Scan.kept cx.file (c.evaluate scanner options clock position cx) =
      if options.exceeds clock c.size position then [] else c.reported scanner cx := by
  unfold Scan.kept
  rw [timedOut_evaluate]
  split
  · rfl
  · next h =>
    rw [← timedOut_evaluate c scanner clock position cx, Bool.not_eq_true] at h
    exact congrArg (List.filter _) (findings_evaluateFrom h)

theorem ScanOptions.exceeds_of_budget_none (hb : options.budget = none) (clock : Clock)
    (rules position : Nat) : options.exceeds clock rules position = false := by
  simp [exceeds, expired, hb]

theorem kept_of_budget_none (hb : options.budget = none) (c : Catalog) (scanner : Scanner)
    (clock : Clock) (position : Nat) (cx : Context) :
    Scan.kept cx.file (c.evaluate scanner options clock position cx) = c.reported scanner cx := by
  rw [kept_evaluate, options.exceeds_of_budget_none hb]
  rfl

/-- Whatever files are to be slow, some clock makes them exceed a budget, and no others. -/
theorem ScanOptions.exists_clock_exceeds {ms : Nat} (hb : options.budget = some ms) (hms : 0 < ms)
    (slow : Nat → Bool) :
    ∃ clock, ∀ rules position, options.exceeds clock rules position = slow position := by
  refine ⟨fun position _ => if slow position then ms else 0, fun rules position => ?_⟩
  cases hslow : slow position with
  | false => simp [exceeds, expired, hb, hslow, Nat.ne_of_gt hms]
  | true =>
    refine List.any_eq_true.2 ⟨0, by simp, ?_⟩
    simp [expired, hb, hslow]

/-! ## All files -/

theorem flatMap_filter {α β : Type} (p : α → Bool) (g : α → List β) (l : List α) :
    (l.filter p).flatMap g = l.flatMap fun a => if p a then g a else [] := by
  induction l with
  | nil => rfl
  | cons a l ih =>
    rw [List.filter_cons, List.flatMap_cons, ← ih]
    split <;> simp

namespace Scan

section Load
variable {t : FileTree} {grammar : Grammar} {marker : Option String} {f : SourceFile}

theorem mem_loaded {results : List (String × Except LoadFault (Option SourceFile))} :
    f ∈ loaded results ↔ ∃ path, (path, .ok (some f)) ∈ results := by
  unfold loaded
  rw [List.mem_filterMap]
  constructor
  · rintro ⟨⟨path, result⟩, hmem, hf⟩
    split at hf
    · next heq =>
      obtain ⟨rfl, rfl⟩ := Prod.mk.inj heq
      obtain rfl := Option.some.inj hf
      exact ⟨path, hmem⟩
    · cases hf
  · rintro ⟨path, hmem⟩
    exact ⟨_, hmem, rfl⟩

/-- A file that loads has been parsed. -/
theorem parse_of_load {path : String} (hload : SourceFile.load t grammar marker path = .ok (some f)) :
    ∃ source g suppressed, SourceFile.parse grammar path source = .ok g ∧
      f = { g with suppressed := suppressed } := by
  unfold SourceFile.load at hload
  split at hload
  · split at hload
    · cases hload
    · split at hload
      · cases hload
      · next g hparse =>
        exact ⟨_, g, _, hparse, (Option.some.inj (Except.ok.inj hload)).symm⟩
  · cases hload

theorem linked_of_load {path : String}
    (hload : SourceFile.load t grammar marker path = .ok (some f)) : f.Linked := by
  obtain ⟨source, g, suppressed, hparse, rfl⟩ := parse_of_load hload
  have hlinked := SourceFile.linked_of_parse hparse
  exact ⟨hlinked.id_eq, hlinked.parent_lt, hlinked.mem_children, hlinked.sorted⟩

end Load

variable (scanner : Scanner) (catalog : Catalog) (clock : Clock)
  (load : String → Except LoadFault (Option SourceFile)) (paths more : List String)

/-- The files at some paths, less those that do not load. -/
def filesAt : List SourceFile := loaded (paths.map fun path => (path, load path))

/-- The entries of the paths that do not load. -/
def faultsAt : List FailedFile := faults (paths.map fun path => (path, load path))

theorem mem_filesAt {f : SourceFile} :
    f ∈ filesAt load paths ↔ ∃ path ∈ paths, load path = .ok (some f) := by
  unfold filesAt
  rw [mem_loaded]
  simp only [List.mem_map, Prod.mk.injEq]
  constructor
  · rintro ⟨_, path, hpath, rfl, hload⟩
    exact ⟨path, hpath, hload⟩
  · rintro ⟨path, hpath, hload⟩
    exact ⟨path, path, hpath, rfl, hload⟩

theorem filesAt_cons (path : String) :
    filesAt load (path :: paths) =
      match load path with
      | .ok (some f) => f :: filesAt load paths
      | _ => filesAt load paths := by
  unfold filesAt loaded
  rw [List.map_cons, List.filterMap_cons]
  rcases load path with fault | _ | f <;> rfl

theorem faultsAt_cons (path : String) :
    faultsAt load (path :: paths) =
      match load path with
      | .error fault => ⟨path, fault.message⟩ :: faultsAt load paths
      | .ok _ => faultsAt load paths := by
  unfold faultsAt faults
  rw [List.map_cons, List.filterMap_cons]
  rcases load path with fault | _ | f <;> rfl

theorem filesAt_append : filesAt load (paths ++ more) = filesAt load paths ++ filesAt load more := by
  simp [filesAt, loaded]

theorem faultsAt_append :
    faultsAt load (paths ++ more) = faultsAt load paths ++ faultsAt load more := by
  simp [faultsAt, faults]

theorem evaluations_run :
    (run scanner catalog options clock load paths).evaluations =
      (filesAt load paths).mapIdx fun i f =>
        (f, catalog.evaluate scanner options clock i ⟨f, .build (filesAt load paths)⟩) :=
  rfl

theorem filesScanned_run :
    (run scanner catalog options clock load paths).filesScanned = (filesAt load paths).length :=
  List.length_mapIdx

theorem findings_run :
    (run scanner catalog options clock load paths).findings =
      ((filesAt load paths).zipIdx.filter
          fun p => !options.exceeds clock catalog.size p.2).flatMap
        fun p => catalog.reported scanner ⟨p.1, .build (filesAt load paths)⟩ := by
  have hblocks : (run scanner catalog options clock load paths).findings =
      (run scanner catalog options clock load paths).evaluations.flatMap fun p => kept p.1 p.2 := rfl
  rw [hblocks, evaluations_run, List.mapIdx_eq_zipIdx_map, List.flatMap_map, flatMap_filter]
  refine congrArg (List.flatMap · _) (funext fun p => ?_)
  dsimp only
  rw [kept_evaluate catalog scanner clock p.2 ⟨p.1, _⟩]
  cases options.exceeds clock catalog.size p.2 <;> rfl

theorem failed_run :
    (run scanner catalog options clock load paths).failed =
      faultsAt load paths ++
        ((filesAt load paths).zipIdx.filter
            fun p => options.exceeds clock catalog.size p.2).map
          fun p => ⟨p.1.path, (Failure.overBudget (options.budget.getD 0)).reason⟩ := by
  have hentries : (run scanner catalog options clock load paths).failed = faultsAt load paths ++
      (run scanner catalog options clock load paths).evaluations.filterMap
        fun p => overBudget? options p.1 p.2 := rfl
  rw [hentries, evaluations_run, List.mapIdx_eq_zipIdx_map, List.filterMap_map,
    ← List.filterMap_eq_map, List.filterMap_filter]
  refine congrArg (_ ++ List.filterMap · _) (funext fun p => ?_)
  unfold overBudget?
  rw [Function.comp_apply, timedOut_evaluate]
  rfl

variable {scanner catalog load paths}

theorem findings_run_of_budget_none (hb : options.budget = none) (clock : Clock) :
    (run scanner catalog options clock load paths).findings =
      (filesAt load paths).flatMap
        fun f => catalog.reported scanner ⟨f, .build (filesAt load paths)⟩ := by
  have hall : ((filesAt load paths).zipIdx.filter
      fun p => !options.exceeds clock catalog.size p.2) = (filesAt load paths).zipIdx :=
    List.filter_eq_self.2 fun p _ => by rw [options.exceeds_of_budget_none hb]; rfl
  have hfst := List.flatMap_map Prod.fst
    (fun f => catalog.reported scanner ⟨f, .build (filesAt load paths)⟩) (filesAt load paths).zipIdx
  rw [List.zipIdx_map_fst] at hfst
  rw [findings_run, hall, hfst]

/-- Without a budget only the files that do not load fail. -/
theorem failed_run_of_budget_none (hb : options.budget = none) (clock : Clock) :
    (run scanner catalog options clock load paths).failed = faultsAt load paths := by
  rw [failed_run]
  refine List.append_right_eq_self.2 (List.map_eq_nil_iff.2 (List.filter_eq_nil_iff.2 fun p _ => ?_))
  rw [options.exceeds_of_budget_none hb]
  exact Bool.false_ne_true

/-- Scans of the same files find the same. -/
theorem run_congr_filesAt (hb : options.budget = none) (clock clock' : Clock) {paths' : List String}
    (h : filesAt load paths' = filesAt load paths) :
    let r := run scanner catalog options clock load paths
    let r' := run scanner catalog options clock' load paths'
    r'.findings = r.findings ∧ r'.filesScanned = r.filesScanned ∧ r'.classes = r.classes := by
  refine ⟨?_, ?_, congrArg Hierarchy.build h⟩
  · rw [findings_run_of_budget_none hb, findings_run_of_budget_none hb, h]
  · rw [filesScanned_run, filesScanned_run, h]

end Scan

end PhpAudit
