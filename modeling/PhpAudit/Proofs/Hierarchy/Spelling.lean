import PhpAudit.Proofs.Namespace.Denotation

/-!
# Letters of a name do not matter

A hierarchy is asked by the keys of names alone: each question has the same answer for two names of one key. All
spellings of a name have one key (`Respells.key_eq`), so they get the same answers, as do methods in letters of any
case; and a written name resolves to the same class in letters of any case (`answers_alike`).
-/

namespace PhpAudit

/-! ## Methods -/

namespace ClassInfo

variable {m m' : String}

theorem declares_congr (c : ClassInfo) (hm : Text.asciiLower m = Text.asciiLower m') :
    c.declares m = c.declares m' :=
  Text.isOneOf_congr c.ownMethods hm

theorem inheritedFrom?_congr (c : ClassInfo) (hm : Text.asciiLower m = Text.asciiLower m') :
    c.inheritedFrom? m = c.inheritedFrom? m' := by
  unfold inheritedFrom? Text.sameAscii
  rw [hm]

end ClassInfo

/-! ## Questions to a hierarchy -/

namespace Hierarchy

variable {h : Hierarchy} {a b s t : String}

theorem get?_congr (hk : ClassName.key a = ClassName.key b) : h.get? a = h.get? b := by
  unfold get?
  rw [hk]

theorem parentOf?_congr (hk : ClassName.key a = ClassName.key b) : h.parentOf? a = h.parentOf? b := by
  unfold parentOf?
  rw [get?_congr hk]

theorem ancestors_congr (hk : ClassName.key a = ClassName.key b) : h.ancestors a = h.ancestors b := by
  unfold ancestors
  rw [hk, parentOf?_congr hk]

theorem searchUp_congr (hk : ClassName.key s = ClassName.key t) (fuel : Nat) (seen queue : List String) :
    h.searchUp s fuel seen queue = h.searchUp t fuel seen queue := by
  have hsame : (ClassName.same · s) = (ClassName.same · t) := by
    funext name
    rw [ClassName.same_eq, ClassName.same_eq, hk]
  induction fuel generalizing seen queue with
  | zero => rfl
  | succ fuel ih =>
    cases queue with
    | nil => rfl
    | cons name queue => rw [searchUp_cons, searchUp_cons, hsame, ih]

theorem isSubclassOf_congr (hk : ClassName.key a = ClassName.key b) (ht : ClassName.key s = ClassName.key t) :
    h.isSubclassOf a s = h.isSubclassOf b t := by
  unfold isSubclassOf
  rw [searchUp_congr ht, hk, searchUp_cons, searchUp_cons, supersOf_congr hk]

theorem isA_congr (hk : ClassName.key a = ClassName.key b) (ht : ClassName.key s = ClassName.key t) :
    h.isA a s = h.isA b t := by
  unfold isA
  rw [ClassName.same_eq, ClassName.same_eq, hk, ht, isSubclassOf_congr hk ht]

theorem findMethod?_congr {m m' : String} (hk : ClassName.key a = ClassName.key b)
    (hm : Text.asciiLower m = Text.asciiLower m') : h.findMethod? a m = h.findMethod? b m' := by
  unfold findMethod?
  rw [get?_congr hk]
  refine Option.bind_congr fun c _ => ?_
  rw [c.declares_congr hm, c.inheritedFrom?_congr hm]

end Hierarchy

/-- A written name resolves to the same class in letters of any case. A hierarchy answers alike for all spellings
of a name, with other letters or with more or fewer backslashes in front, and for methods in letters of any case. -/
theorem ClassName.answers_alike :
    (∀ (scope : Option Namespace) (w w' : String), Text.asciiLower w = Text.asciiLower w' →
      Text.asciiLower (Namespace.resolve w scope) = Text.asciiLower (Namespace.resolve w' scope)) ∧
    ∀ (h : Hierarchy) (c c' a a' m m' : String), Respells c c' → Respells a a' →
      Text.asciiLower m = Text.asciiLower m' →
      h.get? c = h.get? c' ∧ h.contains c = h.contains c' ∧ h.ancestors c = h.ancestors c' ∧
        h.findMethod? c m = h.findMethod? c' m' ∧ h.isSubclassOf c a = h.isSubclassOf c' a' ∧
        h.isA c a = h.isA c' a' := by
  refine ⟨fun scope w w' hw => Namespace.asciiLower_resolve_congr hw scope, ?_⟩
  intro h c c' a a' m m' hc ha hm
  have hkey : key c = key c' := hc.key_eq.symm
  have htarget : key a = key a' := ha.key_eq.symm
  have hget := Hierarchy.get?_congr (h := h) hkey
  refine ⟨hget, congrArg Option.isSome hget, Hierarchy.ancestors_congr hkey, ?_, ?_, ?_⟩
  · exact Hierarchy.findMethod?_congr hkey hm
  · exact Hierarchy.isSubclassOf_congr hkey htarget
  · exact Hierarchy.isA_congr hkey htarget

/-- An administrator is a user, and a user can log in. -/
def adminHierarchy : Hierarchy :=
  (Hierarchy.ofDeclarations
    [{ name := "App\\Admin", parent := some "App\\User" },
      { name := "App\\User", interfaces := ["Auth"], ownMethods := ["getName"] }]).withInherited

theorem ClassName.answers_alike_admin :
    let ns : Namespace := ⟨"App", ⟨0, 60⟩, [⟨"Login", "Auth\\Login"⟩]⟩
    Text.asciiLower (Namespace.resolve "LOGIN\\Form" (some ns)) = "auth\\login\\form" ∧
      Respells "App\\Admin" "\\\\app\\ADMIN" ∧ Respells "Auth" "\\auth" ∧
      adminHierarchy.ancestors "\\\\app\\ADMIN" = ["App\\User"] ∧
      adminHierarchy.findMethod? "\\\\app\\ADMIN" "GETNAME" = some "App\\User" ∧
      adminHierarchy.isSubclassOf "\\\\app\\ADMIN" "\\auth" = true := by
  intro ns
  have hclass : Respells "App\\Admin" "\\\\app\\ADMIN" := by
    have hlower : Respells "App\\Admin" "app\\ADMIN" := .letters (by decide +kernel)
    have honce : Respells "app\\ADMIN" "\\app\\ADMIN" := .backslash (by decide +kernel)
    exact (hlower.trans honce).trans (.backslash (by decide +kernel))
  have htarget : Respells "Auth" "\\auth" := by
    have hlower : Respells "Auth" "auth" := .letters (by decide +kernel)
    exact hlower.trans (.backslash (by decide +kernel))
  obtain ⟨hresolve, hanswers⟩ := answers_alike
  obtain ⟨-, -, hancestors, hmethod, hsubclass, -⟩ :=
    hanswers adminHierarchy _ _ _ _ "getName" "GETNAME" hclass htarget (by decide +kernel)
  refine ⟨?_, hclass, htarget, ?_, ?_, ?_⟩
  · rw [hresolve (some ns) "LOGIN\\Form" "Login\\Form" (by decide +kernel)]
    decide +kernel
  · rw [← hancestors]
    decide +kernel
  · rw [← hmethod]
    decide +kernel
  · rw [← hsubclass]
    decide +kernel

end PhpAudit
