/-!
# Lists of pairs that are looked up

Two parts of a lowering are kept as lists of pairs: what the registers hold, by register, and what
the files of a directory hold, by name. Either is changed by taking out the pairs of a key
and putting a new one in front, and this file says what is found afterwards.
-/

namespace Residency

variable {α β : Type} [DecidableEq α] {l : List (α × β)} {a b : α} {x : β}

theorem lookup_cons_eq_ite : ((a, x) :: l).lookup b = if b = a then some x else l.lookup b := by
  rw [List.lookup_cons]
  by_cases h : b = a
  · rw [if_pos h, beq_iff_eq.2 h]
  · rw [if_neg h, beq_false_of_ne h]

/-- A key whose pairs are taken out is not found any more, and the others are found as before. -/
theorem lookup_filter_ne :
    (l.filter fun p => p.1 ≠ a).lookup b = if b = a then none else l.lookup b := by
  induction l with
  | nil => simp
  | cons p l ih =>
    obtain ⟨k, y⟩ := p
    rw [List.filter_cons, lookup_cons_eq_ite]
    by_cases hk : k = a
    · rw [if_neg (by simpa using hk), ih, ← hk]
      by_cases hb : b = k
      · rw [if_pos hb, if_pos hb]
      · rw [if_neg hb, if_neg hb, if_neg hb]
    · rw [if_pos (by simpa using hk), lookup_cons_eq_ite, ih]
      by_cases hb : b = k
      · rw [if_pos hb, if_neg (hb ▸ hk), if_pos hb]
      · rw [if_neg hb, if_neg hb]

/-- What is put in front, in place of the pairs of its key, is found. -/
theorem lookup_cons_filter_ne :
    ((a, x) :: l.filter fun p => p.1 ≠ a).lookup b = if b = a then some x else l.lookup b := by
  rw [lookup_cons_eq_ite, lookup_filter_ne]
  by_cases h : b = a
  · rw [if_pos h, if_pos h]
  · rw [if_neg h, if_neg h, if_neg h]

end Residency
