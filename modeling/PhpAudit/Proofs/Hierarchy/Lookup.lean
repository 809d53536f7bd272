import PhpAudit.Hierarchy

/-!
# Looking up declared classes

The table of a hierarchy is ordered by key, and the first declaration of a key stays. So a look-up in the
hierarchy of a list of declarations finds the first of them that has the key (`get?_ofDeclarations`), and
filling in inherited methods changes nothing else (`get?_build`).
-/

namespace PhpAudit

theorem ClassName.same_eq (a b : String) :
    ClassName.same a b = (ClassName.key a == ClassName.key b) := rfl

namespace Hierarchy

/-- The keys of a table increase. -/
def Ordered (entries : List (String × ClassInfo)) : Prop :=
  (entries.map (·.1)).Pairwise (· < ·)

theorem lookup_eq_none_of_lt {key : String} {entries : List (String × ClassInfo)}
    (h : ∀ k ∈ entries.map (·.1), key < k) : entries.lookup key = none := by
  induction entries with
  | nil => rfl
  | cons e entries ih =>
    have hlt : key < e.1 := h e.1 (by simp)
    have hne : (key == e.1) = false := by
      rw [beq_eq_false_iff_ne]
      rintro rfl
      exact String.lt_irrefl _ hlt
    rw [List.lookup_cons, hne]
    exact ih fun k hk => h k (List.mem_cons_of_mem _ hk)

/-- Entering a class under a key fills a gap and changes nothing else. -/
theorem lookup_insertNew {entries : List (String × ClassInfo)} (h : Ordered entries)
    (key : String) (c : ClassInfo) (k : String) :
    (insertNew key c entries).lookup k =
      (entries.lookup k).or (if k == key then some c else none) := by
  induction entries with
  | nil => cases hk : k == key <;> simp [insertNew, List.lookup_cons, hk]
  | cons e entries ih =>
    obtain ⟨ek, ec⟩ := e
    obtain ⟨hlt, hrest⟩ := List.pairwise_cons.1 (show Ordered ((ek, ec) :: entries) from h)
    unfold insertNew
    split
    · next hkey =>
      cases hk : k == key with
      | false => simp [List.lookup_cons, hk]
      | true =>
        obtain rfl : k = key := by simpa using hk
        have hnone : ((ek, ec) :: entries).lookup k = none := by
          refine lookup_eq_none_of_lt fun k' hk' => ?_
          rcases List.mem_cons.1 hk' with rfl | hk'
          · exact hkey
          · exact String.lt_trans hkey (hlt k' hk')
        simp [hnone]
    · split
      · next hkey =>
        cases hk : k == key with
        | false => simp
        | true =>
          obtain rfl : k = key := by simpa using hk
          simp [hkey]
      · cases hk : k == ek with
        | false => simpa [List.lookup_cons, hk] using ih hrest
        | true => simp [List.lookup_cons, hk]

theorem mem_insertNew {entries : List (String × ClassInfo)} {key : String} {c : ClassInfo}
    {e : String × ClassInfo} (h : e ∈ insertNew key c entries) : e = (key, c) ∨ e ∈ entries := by
  induction entries with
  | nil => exact .inl (List.mem_singleton.1 h)
  | cons e' entries ih =>
    unfold insertNew at h
    split at h
    · exact List.mem_cons.1 h
    · split at h
      · exact .inr h
      · rcases List.mem_cons.1 h with rfl | h
        · exact .inr List.mem_cons_self
        · exact (ih h).imp_right (List.mem_cons_of_mem _)

theorem mem_keys_insertNew {entries : List (String × ClassInfo)} {key : String} {c : ClassInfo}
    {k : String} (h : k ∈ (insertNew key c entries).map (·.1)) :
    k = key ∨ k ∈ entries.map (·.1) := by
  obtain ⟨e, he, rfl⟩ := List.mem_map.1 h
  rcases mem_insertNew he with rfl | he
  · exact .inl rfl
  · exact .inr (List.mem_map_of_mem he)

theorem ordered_insertNew {entries : List (String × ClassInfo)} (h : Ordered entries)
    (key : String) (c : ClassInfo) : Ordered (insertNew key c entries) := by
  induction entries with
  | nil => exact List.pairwise_singleton _ _
  | cons e entries ih =>
    obtain ⟨hlt, hrest⟩ := List.pairwise_cons.1 (show Ordered (e :: entries) from h)
    unfold insertNew
    split
    · next hkey =>
      refine List.pairwise_cons.2 ⟨fun k hk => ?_, h⟩
      rcases List.mem_cons.1 hk with rfl | hk
      · exact hkey
      · exact String.lt_trans hkey (hlt k hk)
    · split
      · exact h
      · next hnot hne =>
        refine List.pairwise_cons.2 ⟨fun k hk => ?_, ih hrest⟩
        rcases mem_keys_insertNew hk with rfl | hk
        · by_cases hlt' : e.1 < k
          · exact hlt'
          · exact absurd (String.le_antisymm (String.not_lt.1 hlt') (String.not_lt.1 hnot)) hne
        · exact hlt k hk

theorem foldl_declare_spec (cs : List ClassInfo) {h : Hierarchy} (ho : Ordered h.classes) :
    Ordered (cs.foldl declare h).classes ∧ ∀ name,
      (cs.foldl declare h).get? name =
        (h.get? name).or (cs.find? fun c => ClassName.key name == ClassName.key c.name) := by
  induction cs generalizing h with
  | nil => exact ⟨ho, fun name => by simp⟩
  | cons c cs ih =>
    have ho' : Ordered (h.declare c).classes := ordered_insertNew ho _ _
    refine ⟨(ih ho').1, fun name => ?_⟩
    rw [List.foldl_cons, (ih ho').2 name]
    have hdeclare : (h.declare c).get? name = (h.get? name).or
        (if ClassName.key name == ClassName.key c.name then some c else none) :=
      lookup_insertNew ho _ _ _
    rw [hdeclare, Option.or_assoc, List.find?_cons]
    cases ClassName.key name == ClassName.key c.name <;> simp

/-- A look-up finds the first declaration that has the key. -/
theorem get?_ofDeclarations (cs : List ClassInfo) (name : String) :
    (ofDeclarations cs).get? name =
      cs.find? fun c => ClassName.key name == ClassName.key c.name := by
  have h := (foldl_declare_spec cs (h := {}) List.Pairwise.nil).2 name
  rw [show ({} : Hierarchy).get? name = none from rfl, Option.none_or] at h
  exact h

theorem get?_withInherited (h : Hierarchy) (name : String) :
    h.withInherited.get? name =
      (h.get? name).map fun c => { c with inherited := h.inheritedMethods c } := by
  have hmap : ∀ (g : ClassInfo → ClassInfo) (entries : List (String × ClassInfo)),
      (entries.map fun e => (e.1, g e.2)).lookup (ClassName.key name) =
        (entries.lookup (ClassName.key name)).map g := by
    intro g entries
    induction entries with
    | nil => rfl
    | cons e entries ih =>
      rw [List.map_cons, List.lookup_cons, List.lookup_cons]
      cases ClassName.key name == e.1 <;> simp [ih]
  exact hmap (fun c => { c with inherited := h.inheritedMethods c }) h.classes

/-- A look-up in the hierarchy of a list of files finds the first declaration in them, with its
inherited methods. -/
theorem get?_build (files : List SourceFile) (name : String) :
    (build files).get? name =
      ((files.flatMap (·.declaredClasses)).find? fun c =>
          ClassName.key name == ClassName.key c.name).map fun c =>
        { c with inherited :=
          (ofDeclarations (files.flatMap (·.declaredClasses))).inheritedMethods c } := by
  unfold build
  rw [get?_withInherited, get?_ofDeclarations]

/-- What a class extends and implements is what its first declaration says. -/
theorem supersOf_build (files : List SourceFile) (name : String) :
    (build files).supersOf name =
      (((files.flatMap (·.declaredClasses)).find? fun c =>
        ClassName.key name == ClassName.key c.name).map (·.supers)).getD [] := by
  unfold supersOf
  rw [get?_build, Option.map_map]
  rfl

end Hierarchy

end PhpAudit
