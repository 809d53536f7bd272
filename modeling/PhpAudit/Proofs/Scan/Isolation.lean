import PhpAudit.Proofs.Scan.Growth

/-!
# Files that leave the others alone

Files meet in the hierarchy and nowhere else. A path that does not load adds nothing to it, and neither does a
file without classes (`declaredClasses_eq_nil`). So, wherever such a path is put into the list of a scan, the
findings of all other files stay what they were (`run_insert`): a path that does not load adds at most its own
entry to the failed ones, and a file without classes adds its own block of findings.
-/

namespace PhpAudit

/-- The file declares no class, interface, trait or enum. -/
def SourceFile.ClassFree (f : SourceFile) : Prop :=
  ∀ n, f.Has n → n.kind.isClassLike = false

theorem SourceFile.Linked.declaredClasses_eq_nil {f : SourceFile} (hf : f.Linked)
    (hfree : f.ClassFree) : f.declaredClasses = [] := by
  unfold declaredClasses
  cases hroot : f.root? with
  | none => rfl
  | some root =>
    have hnone : (f.descendants root).filter (fun n => n.kind.isClassLike) = [] := by
      refine List.filter_eq_nil_iff.2 fun n hn => ?_
      rw [hfree n (hf.has_of_rooted ((hf.rooted_iff hroot).2 hn))]
      exact Bool.false_ne_true
    simp only [hnone, List.filterMap_nil]

theorem Hierarchy.build_insert {f : SourceFile} (hnil : f.declaredClasses = [])
    (front back : List SourceFile) : build (front ++ f :: back) = build (front ++ back) := by
  simp [build, hnil]

namespace Scan

/-- Without a budget, one more path changes a scan as follows. If it names no PHP file, nothing changes; if it
does not load, its entry joins the failed ones at its place; and if it is a file without classes, its block of
findings joins the others at its place. -/
theorem run_insert {options : ScanOptions} (hb : options.budget = none) (t : FileTree)
    (grammar : Grammar) (scanner : Scanner) (catalog : Catalog) (clock clock' : Clock)
    (front back : List String) (path : String) :
    let load := SourceFile.load t grammar options.marker
    let short := run scanner catalog options clock load (front ++ back)
    let long := run scanner catalog options clock' load (front ++ path :: back)
    let block := fun f => catalog.reported scanner ⟨f, short.classes⟩
    (Path.isPhp path = false →
      long.findings = short.findings ∧ long.filesScanned = short.filesScanned ∧
        long.classes = short.classes ∧ long.failed = short.failed) ∧
    (∀ fault, load path = .error fault →
      long.findings = short.findings ∧ long.filesScanned = short.filesScanned ∧
        long.classes = short.classes ∧
        short.failed = faultsAt load front ++ faultsAt load back ∧
        long.failed = faultsAt load front ++ ⟨path, fault.message⟩ :: faultsAt load back) ∧
    ∀ f, load path = .ok (some f) → f.ClassFree →
      short.findings = (filesAt load front).flatMap block ++ (filesAt load back).flatMap block ∧
        long.findings =
          (filesAt load front).flatMap block ++ block f ++ (filesAt load back).flatMap block ∧
        long.filesScanned = short.filesScanned + 1 ∧ long.classes = short.classes ∧
        long.failed = short.failed := by
  intro load short long block
  have hfiles := filesAt_append load front
  have hfaults := faultsAt_append load front
  have hcons := filesAt_cons load back path
  have hentry := faultsAt_cons load back path
  -- a scan reports on the files and entries at its paths
  have hfindings : ∀ clock paths, (run scanner catalog options clock load paths).findings = _ :=
    fun clock paths => findings_run_of_budget_none hb clock
  have hfailed : ∀ clock paths, (run scanner catalog options clock load paths).failed = _ :=
    fun clock paths => failed_run_of_budget_none hb clock
  have same : filesAt load (path :: back) = filesAt load back →
      long.findings = short.findings ∧ long.filesScanned = short.filesScanned ∧
        long.classes = short.classes := fun hback =>
    run_congr_filesAt hb clock clock' (by rw [hfiles, hfiles, hback])
  refine ⟨fun hphp => ?_, fun fault hload => ?_, fun f hload hfree => ?_⟩
  · have hload : load path = .ok none := by
      simp [load, SourceFile.load, hphp]
    rw [hload] at hcons hentry
    obtain ⟨h1, h2, h3⟩ := same hcons
    refine ⟨h1, h2, h3, ?_⟩
    rw [hfailed, hfailed, hfaults, hfaults, hentry]
  · rw [hload] at hcons hentry
    obtain ⟨h1, h2, h3⟩ := same hcons
    refine ⟨h1, h2, h3, ?_, ?_⟩
    · rw [hfailed, hfaults]
    · rw [hfailed, hfaults, hentry]
  · rw [hload] at hcons hentry
    have hnil := (linked_of_load hload).declaredClasses_eq_nil hfree
    have hall : filesAt load (front ++ path :: back) =
        filesAt load front ++ f :: filesAt load back := by
      rw [hfiles, hcons]
    have hclasses : Hierarchy.build (filesAt load (front ++ path :: back)) = short.classes := by
      rw [hall, Hierarchy.build_insert hnil, ← hfiles]
      rfl
    refine ⟨?_, ?_, ?_, hclasses, ?_⟩
    · rw [hfindings, hfiles, List.flatMap_append, ← hfiles]
      rfl
    · rw [hfindings, hclasses, hall, List.flatMap_append, List.flatMap_cons, List.append_assoc]
    · rw [filesScanned_run, filesScanned_run, hall, hfiles]
      simp only [List.length_append, List.length_cons]
      omega
    · rw [hfailed, hfailed, hfaults, hfaults, hentry]

/-- A missing file and a file of another type leave the findings of two files as they are; of those two, the
one without classes adds its two findings in front of the other's. -/
theorem run_insert_sample :
    let load := SourceFile.load laterClassTree laterClassGrammar none
    let scan := run Scanner.tree Catalog.builtin {} (fun _ _ => 0) load
    ({} : ScanOptions).budget = none ∧ Path.isPhp "notes.md" = false ∧
      (scan ["a.php", "notes.md", "b.php"]).findings = (scan ["a.php", "b.php"]).findings ∧
      (scan ["a.php", "gone.php", "b.php"]).findings = (scan ["a.php", "b.php"]).findings ∧
      (scan ["a.php", "gone.php", "b.php"]).failed.map (·.path) = ["gone.php"] ∧
      ∃ block, block.length = 2 ∧
        (scan ["a.php", "b.php"]).findings = block ++ (scan ["b.php"]).findings := by
  intro load scan
  have hb : ({} : ScanOptions).budget = none := rfl
  have hphp : Path.isPhp "notes.md" = false := by decide +kernel
  have hgone : load "gone.php" = .error (.unreadable "gone.php" .notFound) := by
    have hread : laterClassTree.read "gone.php" = .error .notFound := by decide +kernel
    have hphp : Path.isPhp "gone.php" = true := by decide +kernel
    simp [load, SourceFile.load, hphp, hread]
  let file : SourceFile := { SourceFile.ofParts "a.php" shortSource shortOutline with suppressed := [] }
  have hfile : load "a.php" = .ok (some file) := by
    have hread : laterClassTree.read "a.php" = .ok shortSource := by decide +kernel
    have hphp : Path.isPhp "a.php" = true := by decide +kernel
    have hrows : laterClassGrammar shortSource = some shortOutline := by decide +kernel
    simp [load, SourceFile.load, SourceFile.parse, hphp, hread, hrows, file]
  have hfree : file.ClassFree := by
    intro n hn
    have hall : ∀ n ∈ file.nodes.toList, n.kind.isClassLike = false := by decide +kernel
    exact hall n (Array.mem_toList_iff.2 (Array.mem_of_getElem? hn))
  have insert := run_insert hb laterClassTree laterClassGrammar Scanner.tree Catalog.builtin (fun _ _ => 0)
    (fun _ _ => 0)
  obtain ⟨hother, -, -⟩ := insert ["a.php"] ["b.php"] "notes.md"
  obtain ⟨-, hmissing, -⟩ := insert ["a.php"] ["b.php"] "gone.php"
  obtain ⟨-, -, hadded⟩ := insert [] ["b.php"] "a.php"
  obtain ⟨hsame, -, -, -, hfailed⟩ := hmissing _ hgone
  obtain ⟨hshort, hlong, -⟩ := hadded _ hfile hfree
  refine ⟨hb, hphp, (hother hphp).1, hsame, ?_, _, ?_, hlong.trans (congrArg (_ ++ ·) hshort.symm)⟩
  · exact congrArg (List.map _) hfailed
  · decide +kernel

end Scan

end PhpAudit
