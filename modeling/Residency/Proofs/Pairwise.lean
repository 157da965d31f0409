import Mathlib.Data.List.Forall2
import Residency.Failure

/-!
# Lists that agree element by element

What is done to every element of a list, and may fail, succeeds as a whole just if it succeeds for
each of them (`Residency.mapM_eq_ok_iff`). `List.Forall₂` says so, and this file adds to what there
is about it.
-/

namespace Residency

variable {α β ε : Type}

theorem mapM_eq_ok_iff {g : α → Except ε β} {l : List α} {ys : List β} :
    l.mapM g = .ok ys ↔ List.Forall₂ (fun x y => g x = .ok y) l ys := by
  induction l generalizing ys with
  | nil =>
    rw [List.mapM_nil, List.forall₂_nil_left_iff]
    exact ⟨fun h => (Except.ok.inj h).symm, fun h => h ▸ rfl⟩
  | cons x l ih =>
    rw [List.mapM_cons, except_bind_eq_ok_iff, List.forall₂_cons_left_iff]
    constructor
    · rintro ⟨y, hy, h⟩
      obtain ⟨ys', hys, h⟩ := except_bind_eq_ok_iff.1 h
      exact ⟨y, ys', hy, ih.1 hys, (Except.ok.inj h).symm⟩
    · rintro ⟨y, ys', hy, hys, rfl⟩
      exact ⟨y, hy, except_bind_eq_ok_iff.2 ⟨ys', ih.2 hys, rfl⟩⟩

variable {R : α → β → Prop} {l : List α} {l' : List β}

/-- What is paired with another list element by element has a partner in it. -/
theorem exists_of_forall₂ {x : α} (h : List.Forall₂ R l l') (hx : x ∈ l) : ∃ y ∈ l', R x y := by
  obtain ⟨k, hk, rfl⟩ := List.getElem_of_mem hx
  have hk' : k < l'.length := h.length_eq ▸ hk
  exact ⟨l'[k], List.getElem_mem hk', h.get hk hk'⟩

/-- A list whose elements all have a partner is paired with the list of the partners. -/
theorem exists_forall₂ (h : ∀ x ∈ l, ∃ y, R x y) : ∃ l', List.Forall₂ R l l' := by
  induction l with
  | nil => exact ⟨[], .nil⟩
  | cons x l ih =>
    obtain ⟨⟨y, hy⟩, hl⟩ := List.forall_mem_cons.1 h
    obtain ⟨l', hl'⟩ := ih hl
    exact ⟨y :: l', .cons hy hl'⟩

/-- Whether two lists agree depends on the elements of the first alone. -/
theorem forall₂_congr_left {S : α → β → Prop} (h : ∀ x ∈ l, ∀ y, R x y ↔ S x y) :
    List.Forall₂ R l l' ↔ List.Forall₂ S l l' := by
  induction l generalizing l' with
  | nil => rw [List.forall₂_nil_left_iff, List.forall₂_nil_left_iff]
  | cons x l ih =>
    obtain ⟨hx, hl⟩ := List.forall_mem_cons.1 h
    simp only [List.forall₂_cons_left_iff, hx, ih hl]

end Residency
