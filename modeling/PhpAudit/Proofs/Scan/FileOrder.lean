import Mathlib.Data.List.Nodup
import Mathlib.Data.String.Basic
import PhpAudit.Proofs.Scan.Growth

/-!
# The order of files

Of two declarations of one class the first counts, so the order of files matters where a class is declared
twice. Where no two declarations have the same key it does not: entries with different keys can be made in
either order (`insertNew_comm`), so the hierarchy is the same for every order of the files (`build_perm`), and
every rule sees the same. A scan of the files in another order reports the same blocks of findings in that
order (`run_perm`).
-/

namespace PhpAudit

/-- No two declarations in the files have the same key, in one file or in two. -/
def DistinctClasses (files : List SourceFile) : Prop :=
  ((files.flatMap (·.declaredClasses)).map fun c => ClassName.key c.name).Nodup

namespace Hierarchy

theorem insertNew_comm {k k' : String} (hne : k ≠ k') (c c' : ClassInfo)
    (entries : List (String × ClassInfo)) :
    insertNew k c (insertNew k' c' entries) = insertNew k' c' (insertNew k c entries) := by
  -- at each entry the two keys stand before it, are its own or go on behind it
  induction entries with
  | nil => grind [insertNew]
  | cons e entries ih => grind [insertNew]

theorem declare_comm {c d : ClassInfo} (hne : ClassName.key c.name ≠ ClassName.key d.name)
    (h : Hierarchy) : (h.declare c).declare d = (h.declare d).declare c :=
  congrArg Hierarchy.mk (insertNew_comm hne.symm d c h.classes)

theorem ofDeclarations_perm {cs ds : List ClassInfo} (hperm : ds.Perm cs)
    (hdistinct : (cs.map fun c => ClassName.key c.name).Nodup) :
    ofDeclarations ds = ofDeclarations cs := by
  symm
  apply hperm.symm.foldl_eq'
  intro c hc d hd h
  by_cases hkey : ClassName.key c.name = ClassName.key d.name
  · rw [List.inj_on_of_nodup_map hdistinct hc hd hkey]
  · exact declare_comm hkey h

/-- Files without duplicate classes have one hierarchy, in whatever order they come. -/
theorem build_perm {files files' : List SourceFile} (hperm : files'.Perm files)
    (hdistinct : DistinctClasses files) : build files' = build files := by
  unfold build
  rw [ofDeclarations_perm (hperm.flatMap_right _) hdistinct]

end Hierarchy

namespace Scan

theorem filesAt_perm {load : String → Except LoadFault (Option SourceFile)} {paths paths' : List String}
    (hperm : paths'.Perm paths) : (filesAt load paths').Perm (filesAt load paths) := by
  unfold filesAt loaded
  exact (hperm.map _).filterMap _

/-- Files without duplicate classes may come in any order: they have the same hierarchy, class by class and in
the same order of keys, and without a budget every file shows the same block of findings, wherever it
stands. -/
theorem run_perm {files files' : List SourceFile} (hperm : files'.Perm files)
    (hdistinct : DistinctClasses files) :
    Hierarchy.build files' = Hierarchy.build files ∧
      ∀ (scanner : Scanner) (catalog : Catalog) (options : ScanOptions) (clock clock' : Clock)
        (load : String → Except LoadFault (Option SourceFile)) (paths paths' : List String),
        options.budget = none → filesAt load paths = files → filesAt load paths' = files' →
        let block := fun f => catalog.reported scanner ⟨f, .build files⟩
        (run scanner catalog options clock load paths).findings = files.flatMap block ∧
          (run scanner catalog options clock' load paths').findings = files'.flatMap block := by
  have hbuild := Hierarchy.build_perm hperm hdistinct
  refine ⟨hbuild, ?_⟩
  rintro scanner catalog options clock clock' load paths paths' hb rfl rfl block
  refine ⟨findings_run_of_budget_none hb clock, ?_⟩
  rw [findings_run_of_budget_none hb, hbuild]

/-- The file that uses `B` shows its two findings in front of the file that declares `B` and behind it. -/
theorem run_perm_sample :
    let load := SourceFile.load laterClassTree laterClassGrammar none
    let scan := run Scanner.tree Catalog.builtin {} (fun _ _ => 0) load
    let files := filesAt load ["a.php", "b.php"]
    let files' := filesAt load ["b.php", "a.php"]
    files'.Perm files ∧ DistinctClasses files ∧ Hierarchy.build files' = Hierarchy.build files ∧
      ∃ block, (scan ["a.php", "b.php"]).findings = files.flatMap block ∧
        (scan ["b.php", "a.php"]).findings = files'.flatMap block ∧
        files'.map (fun f => (f.path, (block f).length)) = [("b.php", 0), ("a.php", 2)] := by
  intro load scan files files'
  have hperm : files'.Perm files := filesAt_perm (List.Perm.swap _ _ _)
  have hdistinct : DistinctClasses files := by
    have hkeys : (files.flatMap (·.declaredClasses)).map (fun c => ClassName.key c.name) = ["b"] := by
      decide +kernel
    unfold DistinctClasses
    rw [hkeys]
    exact List.nodup_singleton _
  obtain ⟨hbuild, hscan⟩ := run_perm hperm hdistinct
  obtain ⟨hfront, hback⟩ := hscan Scanner.tree Catalog.builtin {} (fun _ _ => 0) (fun _ _ => 0) load
    ["a.php", "b.php"] ["b.php", "a.php"] rfl rfl rfl
  exact ⟨hperm, hdistinct, hbuild, _, hfront, hback, by decide +kernel⟩

end Scan

end PhpAudit
