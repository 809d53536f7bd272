import PhpAudit.Text.Lines

/-!
# Cutting a text that is put together

What a cut of `a ++ b` is in terms of the two parts: a cut of `a` (`slice?_append_left`), a cut of `b`
(`slice?_append_right`), or an end of `a` with a beginning of `b` (`slice?_append_mid`). A text is cut at
its separators word by word. The lines of `a ++ b` start where those of `a` do and, behind it, where those of
`b` do.
-/

namespace PhpAudit.Text

/-- Of two beginnings of a text the shorter one is a beginning of the other. -/
theorem append_eq_append_of_le {a b c d : String} (h : a ++ b = c ++ d)
    (hle : a.utf8ByteSize ≤ c.utf8ByteSize) : ∃ m, c = a ++ m ∧ b = m ++ d := by
  have hlist : a.toList ++ b.toList = c.toList ++ d.toList := by
    rw [← String.toList_append, ← String.toList_append, h]
  rcases List.append_eq_append_iff.1 hlist with ⟨m, hc, hb⟩ | ⟨m, ha, hd⟩
  · refine ⟨String.ofList m, ?_, ?_⟩ <;> apply String.toList_injective <;> simp [*]
  · have ha' : a = c ++ String.ofList m := by apply String.toList_injective; simp [ha]
    have hm : String.ofList m = "" := by
      rw [ha', String.utf8ByteSize_append] at hle
      exact String.utf8ByteSize_eq_zero_iff.1 (by omega)
    obtain rfl : m = [] := by simpa using hm
    refine ⟨"", ?_, ?_⟩ <;> apply String.toList_injective <;> simp [ha, hd]

theorem slice?_append_left {a b : String} {i j : Nat} (h : j ≤ a.utf8ByteSize) :
    slice? (a ++ b) i j = slice? a i j := by
  ext t
  rw [slice?_eq_some_iff, slice?_eq_some_iff]
  constructor
  · rintro ⟨x, y, hs, hi, hj⟩
    obtain ⟨m, ha, -⟩ := append_eq_append_of_le hs.symm (by rw [String.utf8ByteSize_append]; omega)
    exact ⟨x, m, ha, hi, hj⟩
  · rintro ⟨x, y, rfl, hi, hj⟩
    exact ⟨x, y ++ b, by simp only [String.append_assoc], hi, hj⟩

theorem slice?_append_right (a b : String) (i j : Nat) :
    slice? (a ++ b) (a.utf8ByteSize + i) (a.utf8ByteSize + j) = slice? b i j := by
  ext t
  rw [slice?_eq_some_iff, slice?_eq_some_iff]
  constructor
  · rintro ⟨x, y, hs, hi, hj⟩
    rw [String.append_assoc] at hs
    obtain ⟨m, rfl, hb⟩ := append_eq_append_of_le hs (by omega)
    rw [String.utf8ByteSize_append] at hi hj
    exact ⟨m, y, by rw [hb, String.append_assoc], by omega, by omega⟩
  · rintro ⟨x, y, rfl, rfl, rfl⟩
    refine ⟨a ++ x, y, by simp only [String.append_assoc], ?_, ?_⟩ <;>
      rw [String.utf8ByteSize_append] <;> omega

/-- A cut across the seam is an end of the first part with a beginning of the second. -/
theorem slice?_append_mid {a b : String} {i : Nat} (h : i ≤ a.utf8ByteSize) (j : Nat) :
    slice? (a ++ b) i (a.utf8ByteSize + j) =
      (slice? a i a.utf8ByteSize).bind fun x => (slice? b 0 j).map (x ++ ·) := by
  ext t
  simp only [Option.bind_eq_some_iff, Option.map_eq_some_iff, slice?_eq_some_iff]
  constructor
  · rintro ⟨x, y, hs, hi, hj⟩
    rw [String.append_assoc] at hs
    obtain ⟨m, rfl, hm⟩ := append_eq_append_of_le hs.symm (by omega)
    rw [String.utf8ByteSize_append] at hj
    obtain ⟨u, rfl, rfl⟩ := append_eq_append_of_le hm.symm (by omega)
    rw [String.utf8ByteSize_append] at hj
    refine ⟨m, ⟨x, "", by simp, hi, by rw [String.utf8ByteSize_append]⟩, u, ⟨"", y, by simp, rfl, ?_⟩, rfl⟩
    rw [String.utf8ByteSize_empty]
    omega
  · rintro ⟨m, ⟨x, z, ha, hi, hm⟩, u, ⟨w, y, hb, hw, hu⟩, rfl⟩
    obtain rfl : w = "" := String.utf8ByteSize_eq_zero_iff.1 hw
    have hz : z = "" := by
      refine String.utf8ByteSize_eq_zero_iff.1 ?_
      rw [ha, String.utf8ByteSize_append, String.utf8ByteSize_append] at hm
      omega
    subst hz
    refine ⟨x, y, by rw [ha, hb]; simp [String.append_assoc], hi, ?_⟩
    rw [String.utf8ByteSize_append, ← hm, ← hu, String.utf8ByteSize_empty]
    omega

theorem slice?_self (a : String) : slice? a 0 a.utf8ByteSize = some a :=
  slice?_eq_some_iff.2 ⟨"", "", by simp, rfl, by simp⟩

theorem bounds_of_slice? {s : String} {i j : Nat} (h : (slice? s i j).isSome = true) :
    i ≤ j ∧ j ≤ s.utf8ByteSize := by
  obtain ⟨t, ht⟩ := Option.isSome_iff_exists.1 h
  obtain ⟨a, b, rfl, hi, hj⟩ := slice?_eq_some_iff.1 ht
  rw [String.utf8ByteSize_append, String.utf8ByteSize_append]
  omega

/-! ## Pieces -/

section Pieces

variable {p : Char → Bool} {w : List Char}

theorem cutAt_word (hw : ∀ c ∈ w, p c = false) : cutAt p w = [w] := by
  induction w with
  | nil => rfl
  | cons c w ih =>
    have hc := hw c List.mem_cons_self
    simp [cutAt, hc, ih fun d hd => hw d (List.mem_cons_of_mem _ hd)]

theorem cutAt_ne_nil (cs : List Char) : cutAt p cs ≠ [] := by
  cases cs with
  | nil => simp [cutAt]
  | cons c cs =>
    unfold cutAt
    split
    · simp
    · split <;> simp

theorem cutAt_eq_singleton {c : Char} (hw : c ∉ w) : cutAt (· == c) w = [w] :=
  cutAt_word fun _ hd => beq_eq_false_iff_ne.2 fun heq => hw (heq ▸ hd)

theorem cutAt_append {c : Char} (hc : p c = true) (xs ys : List Char) :
    cutAt p (xs ++ c :: ys) = cutAt p xs ++ cutAt p ys := by
  induction xs with
  | nil => simp [cutAt, hc]
  | cons x xs ih =>
    simp only [List.cons_append, cutAt, ih]
    split
    · rfl
    · cases hxs : cutAt p xs with
      | nil => exact absurd hxs (cutAt_ne_nil xs)
      | cons piece pieces => rfl

theorem cutAt_word_append (hw : ∀ c ∈ w, p c = false) {c : Char} (hc : p c = true) (cs : List Char) :
    cutAt p (w ++ c :: cs) = w :: cutAt p cs := by
  rw [cutAt_append hc, cutAt_word hw, List.singleton_append]

end Pieces

/-! ## Where lines start -/

theorem utf8ByteSize_ofList_cons (c : Char) (cs : List Char) :
    (String.ofList (c :: cs)).utf8ByteSize = c.utf8Size + (String.ofList cs).utf8ByteSize := by
  have h : String.ofList (c :: cs) = String.singleton c ++ String.ofList cs := by
    apply String.toList_injective
    simp
  rw [h, String.utf8ByteSize_append, String.utf8ByteSize_singleton]

theorem length_le_utf8ByteSize (cs : List Char) : cs.length ≤ (String.ofList cs).utf8ByteSize := by
  induction cs with
  | nil => simp
  | cons c cs ih =>
    have := c.utf8Size_pos
    rw [utf8ByteSize_ofList_cons, List.length_cons]
    omega

theorem lineStartsFrom_append (offset : Nat) (cs ds : List Char) :
    lineStartsFrom offset (cs ++ ds) =
      lineStartsFrom offset cs ++ lineStartsFrom (offset + (String.ofList cs).utf8ByteSize) ds := by
  induction cs generalizing offset with
  | nil => rfl
  | cons c cs ih =>
    rw [utf8ByteSize_ofList_cons, ← Nat.add_assoc]
    simp only [List.cons_append, lineStartsFrom]
    split <;> rw [ih] <;> rfl

theorem lineStartsFrom_add (offset d : Nat) (cs : List Char) :
    lineStartsFrom (offset + d) cs = (lineStartsFrom offset cs).map (· + d) := by
  induction cs generalizing offset with
  | nil => rfl
  | cons c cs ih =>
    have hc : offset + d + c.utf8Size = offset + c.utf8Size + d := by omega
    simp only [lineStartsFrom, hc]
    split <;> rw [ih] <;> rfl

theorem lineStartsFrom_eq_nil {offset : Nat} {cs : List Char} (h : '\n' ∉ cs) :
    lineStartsFrom offset cs = [] := by
  induction cs generalizing offset with
  | nil => rfl
  | cons c cs ih =>
    have hc : ¬ c = '\n' := fun hc => h (by simp [hc])
    simp only [lineStartsFrom, hc, if_false]
    exact ih fun hin => h (List.mem_cons_of_mem _ hin)

theorem bounds_of_mem_lineStartsFrom {offset x : Nat} {cs : List Char}
    (h : x ∈ lineStartsFrom offset cs) :
    offset < x ∧ x ≤ offset + (String.ofList cs).utf8ByteSize := by
  induction cs generalizing offset with
  | nil => cases h
  | cons c cs ih =>
    have hpos := Char.utf8Size_pos c
    rw [utf8ByteSize_ofList_cons]
    simp only [lineStartsFrom] at h
    split at h
    · rcases List.mem_cons.1 h with rfl | h
      · omega
      · have := ih h; omega
    · have := ih h; omega

end PhpAudit.Text
