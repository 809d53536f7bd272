import Mathlib.Data.List.Perm.Basic
import PhpAudit.Proofs.Scan.Evaluation
import PhpAudit.Scan.Metrics

/-!
# Every path of a scan is accounted for

A path names no PHP file, or a file that does not load (`Fails`), or one that does (`Loads`). `Sorts` deals a
list of paths out into these three heaps, each occurrence of a path to one of them, in order. The report of a
scan says nothing else (`run_accounts`): its counters are the sizes of the heaps, it lists the files that do
not load in front of those that exceed their budget, its hierarchy is that of all files that load, and its
findings are the blocks of those that are done in time.
-/

namespace PhpAudit

/-- The part of a document behind a list of field names. -/
def Json.at? : List String → Json → Option Json
  | [], j => some j
  | name :: names, .obj fields => (fields.lookup name).bind (at? names)
  | _ :: _, _ => none

namespace Scan

variable (t : FileTree) (grammar : Grammar) (marker : Option String)

/-! ## Three heaps -/

/-- A PHP file does not load if it cannot be read or if the grammar rejects its text. -/
inductive Fails : String → LoadFault → Prop
  | unreadable {path : String} {cause : FileError} (hphp : Path.isPhp path = true)
      (hread : t.read path = .error cause) : Fails path (.unreadable path cause)
  | malformed {path source : String} (hphp : Path.isPhp path = true)
      (hread : t.read path = .ok source) (hrows : grammar source = none) :
      Fails path (.malformed ⟨path⟩)

/-- A PHP file loads if the grammar has an outline of its text. The lines with the marker are suppressed. -/
inductive Loads : String → SourceFile → Prop
  | parsed {path source : String} {rows : Outline} (hphp : Path.isPhp path = true)
      (hread : t.read path = .ok source) (hrows : grammar source = some rows) :
      Loads path { SourceFile.ofParts path source rows with
        suppressed := (marker.map (SourceFile.markedLines source)).getD [] }

/-- Paths dealt out: those that name no PHP file, those that do not load, and the files at the others. -/
inductive Sorts : List String → List String → List (String × LoadFault) → List SourceFile → Prop
  | nil : Sorts [] [] [] []
  | skip {path : String} {paths skipped : List String} {faults : List (String × LoadFault)}
      {files : List SourceFile} (hpath : Path.isPhp path = false)
      (hrest : Sorts paths skipped faults files) :
      Sorts (path :: paths) (path :: skipped) faults files
  | fail {path : String} {fault : LoadFault} {paths skipped : List String}
      {faults : List (String × LoadFault)} {files : List SourceFile}
      (hpath : Fails t grammar path fault) (hrest : Sorts paths skipped faults files) :
      Sorts (path :: paths) skipped ((path, fault) :: faults) files
  | load {path : String} {f : SourceFile} {paths skipped : List String}
      {faults : List (String × LoadFault)} {files : List SourceFile}
      (hpath : Loads t grammar marker path f) (hrest : Sorts paths skipped faults files) :
      Sorts (path :: paths) skipped faults (f :: files)

variable {t grammar marker}

theorem Loads.path_eq {path : String} {f : SourceFile} (h : Loads t grammar marker path f) :
    f.path = path := by
  cases h
  exact SourceFile.path_ofParts ..

/-- The heaps hold what was dealt out, no more and no less. -/
theorem Sorts.perm {paths skipped : List String} {faults : List (String × LoadFault)}
    {files : List SourceFile} (h : Sorts t grammar marker paths skipped faults files) :
    (skipped ++ faults.map (·.1) ++ files.map (·.path)).Perm paths := by
  induction h with
  | nil => exact .refl _
  | skip _ _ ih => exact ih.cons _
  | fail _ _ ih =>
    refine List.Perm.trans ?_ (ih.cons _)
    rw [List.map_cons, List.append_assoc, List.append_assoc]
    exact List.perm_middle
  | load hpath _ ih =>
    refine List.Perm.trans ?_ (ih.cons _)
    rw [List.map_cons, hpath.path_eq]
    exact List.perm_middle

/-! ## Loading -/

variable (t grammar marker)

/-- What can become of a path. -/
theorem load_cases (path : String) :
    (Path.isPhp path = false ∧ SourceFile.load t grammar marker path = .ok none) ∨
      (∃ fault, Fails t grammar path fault ∧
        SourceFile.load t grammar marker path = .error fault) ∨
      ∃ f, Loads t grammar marker path f ∧ SourceFile.load t grammar marker path = .ok (some f) := by
  unfold SourceFile.load SourceFile.parse
  cases hphp : Path.isPhp path with
  | false => exact .inl ⟨rfl, rfl⟩
  | true =>
    refine .inr ?_
    cases hread : t.read path with
    | error cause => exact .inl ⟨_, .unreadable hphp hread, rfl⟩
    | ok source =>
      cases hrows : grammar source with
      | none => exact .inl ⟨_, .malformed hphp hread hrows, by simp [hrows]⟩
      | some rows => exact .inr ⟨_, .parsed hphp hread hrows, by simp [hrows]⟩

theorem sorts_load (paths : List String) :
    ∃ skipped faults,
      Sorts t grammar marker paths skipped faults
        (filesAt (SourceFile.load t grammar marker) paths) ∧
      faultsAt (SourceFile.load t grammar marker) paths =
        faults.map fun p => ⟨p.1, p.2.message⟩ := by
  induction paths with
  | nil => exact ⟨[], [], .nil, rfl⟩
  | cons path paths ih =>
    obtain ⟨skipped, faults, hsorts, hfaults⟩ := ih
    rw [filesAt_cons, faultsAt_cons]
    rcases load_cases t grammar marker path with ⟨hpath, hload⟩ | ⟨fault, hpath, hload⟩ | ⟨f, hpath, hload⟩
    · rw [hload]
      exact ⟨path :: skipped, faults, hsorts.skip hpath, hfaults⟩
    · rw [hload]
      exact ⟨skipped, (path, fault) :: faults, hsorts.fail hpath, congrArg (_ :: ·) hfaults⟩
    · rw [hload]
      exact ⟨skipped, faults, hsorts.load hpath, hfaults⟩

/-! ## The report -/

/-- A scan deals its paths out and reports on the heaps. The files that exceed their budget, at whatever
positions they stand, are counted and known to the hierarchy; they are listed as failed and show no
findings. -/
theorem run_accounts (t : FileTree) (grammar : Grammar) (scanner : Scanner) (catalog : Catalog)
    (options : ScanOptions) (clock : Clock) (paths : List String) :
    let r := run scanner catalog options clock (SourceFile.load t grammar options.marker) paths
    let slow := options.exceeds clock catalog.size
    ∃ skipped faults files, Sorts t grammar options.marker paths skipped faults files ∧
      (skipped ++ faults.map (·.1) ++ files.map (·.path)).Perm paths ∧
      r.filesScanned = files.length ∧
      (r.metrics clock).at? ["parser", "files_parsed"] = some (.nat files.length) ∧
      (r.metrics clock).at? ["parser", "parse_errors"] = some (.nat faults.length) ∧
      r.failed = faults.map (fun p => ⟨p.1, p.2.message⟩) ++
        (files.zipIdx.filter fun p => slow p.2).map
          (fun p => ⟨p.1.path, (Failure.overBudget (options.budget.getD 0)).reason⟩) ∧
      r.classes = .build files ∧
      r.findings = (files.zipIdx.filter fun p => !slow p.2).flatMap
        (fun p => catalog.reported scanner ⟨p.1, .build files⟩) ∧
      (r.metrics clock).at? ["findings"] = some (.nat r.findings.length) := by
  intro r slow
  obtain ⟨skipped, faults, hsorts, hfaults⟩ := sorts_load t grammar options.marker paths
  have hscanned : r.filesScanned = (filesAt _ paths).length := filesScanned_run ..
  have hfailures : r.loadFailures = faults.length := by
    have h : r.loadFailures = (faultsAt _ paths).length := rfl
    rw [h, hfaults, List.length_map]
  refine ⟨skipped, faults, _, hsorts, hsorts.perm, hscanned, ?_, ?_, ?_, rfl, findings_run .., rfl⟩
  · rw [← hscanned]
    rfl
  · rw [← hfailures]
    rfl
  · rw [← hfaults]
    exact failed_run ..

end Scan

end PhpAudit
