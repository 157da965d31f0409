import Residency.Lowering.Block

/-!
# Steps that succeed

A lowering is written with steps (`Residency.Step`), and a theorem about it speaks of the
steps that succeed: `m s = .ok x s'` says that `m` turns the state `s` into `s'` and gives
`x`. This file says how such an equation falls apart along the way a step is built: for a
sequence (`Residency.Step.bind_eq_ok_iff`), for the steps that every other one is made of,
and for a step that is repeated along a list (`Residency.Step.forM_cons_eq_ok_iff`,
`Residency.Step.forM_append_eq_ok_iff`).

What every step along a list keeps, the whole list keeps
(`Residency.Step.forM_keeps`). More generally a property may grow with the part of the list
that is done: it is built up by a list whose steps succeed (`Residency.Step.forM_builds`),
and it can be what lets the steps succeed (`Residency.Step.forM_builds_succeeds`).
-/

namespace Residency

namespace Step

variable {α β : Type} {s s' : State}

/-! ### Sequences and their parts -/

section Sequence

variable {ε σ : Type} {u u' : σ}

/-- **A sequence succeeds when both parts do**, the second one from where the first one
ended. -/
theorem bind_eq_ok_iff {m : EStateM ε σ α} {f : α → EStateM ε σ β} {y : β} :
    (m >>= f) u = .ok y u' ↔ ∃ x t, m u = .ok x t ∧ f x t = .ok y u' := by
  change EStateM.bind m f u = .ok y u' ↔ _
  unfold EStateM.bind
  constructor
  · intro h
    split at h
    · rename_i x t hm
      exact ⟨x, t, hm, h⟩
    · cases h
  · rintro ⟨x, t, hm, hf⟩
    rw [hm]
    exact hf

/-- A sequence fails when a part does. -/
theorem bind_eq_error_iff {m : EStateM ε σ α} {f : α → EStateM ε σ β} {e : ε} :
    (m >>= f) u = .error e u' ↔
      m u = .error e u' ∨ ∃ x t, m u = .ok x t ∧ f x t = .error e u' := by
  change EStateM.bind m f u = .error e u' ↔ _
  unfold EStateM.bind
  constructor
  · intro h
    split at h
    · rename_i x t hm
      exact Or.inr ⟨x, t, hm, h⟩
    · rename_i e' t hm
      cases h
      exact Or.inl hm
  · rintro (hm | ⟨x, t, hm, hf⟩)
    · rw [hm]
    · rw [hm]
      exact hf

theorem pure_eq_ok_iff {x y : α} : (pure x : EStateM ε σ α) u = .ok y u' ↔ x = y ∧ u = u' := by
  change EStateM.Result.ok x u = .ok y u' ↔ _
  simp

theorem get_eq_ok_iff {t : σ} : (get : EStateM ε σ σ) u = .ok t u' ↔ u = t ∧ u = u' := by
  change EStateM.Result.ok u u = .ok t u' ↔ _
  simp

theorem modify_eq_ok_iff {f : σ → σ} {x : PUnit} :
    (modify f : EStateM ε σ PUnit) u = .ok x u' ↔ f u = u' := by
  change EStateM.Result.ok PUnit.unit (f u) = .ok x u' ↔ _
  simp

end Sequence

theorem set_eq_ok_iff {t : State} {u : PUnit} :
    (set t : Step PUnit) s = .ok u s' ↔ t = s' := by
  change EStateM.Result.ok PUnit.unit t = .ok u s' ↔ _
  simp

theorem fault_ne_ok {f : Fault} {x : α} : (fault f : Step α) s ≠ .ok x s' := by
  intro h
  cases h

theorem known_eq_ok_iff {e : Except Fault α} {x : α} :
    known e s = .ok x s' ↔ e = .ok x ∧ s = s' := by
  cases e with
  | ok y => exact pure_eq_ok_iff.trans (and_congr_left' (by simp))
  | error f => simp [known, fault_ne_ok]

theorem ask_eq_ok_iff {target : Target} {cls : RegClass} {q : Request} {i : Inst} :
    ask target cls q s = .ok i s' ↔ target.answer cls q = .ok i ∧ s.request q = s' := by
  refine bind_eq_ok_iff.trans ?_
  simp only [modify_eq_ok_iff]
  cases target.answer cls q with
  | ok j =>
    simp only [pure_eq_ok_iff, Except.ok.injEq]
    constructor
    · rintro ⟨_, _, rfl, hj, rfl⟩
      exact ⟨hj, rfl⟩
    · rintro ⟨hj, rfl⟩
      exact ⟨⟨⟩, _, rfl, hj, rfl⟩
  | error e =>
    refine iff_of_false ?_ fun h => nomatch h.1
    rintro ⟨_, _, rfl, h⟩
    cases h

theorem fault_eq_error_iff {f : Fault} {e : Failure} :
    (fault f : Step α) s = .error e s' ↔ .fault f = e ∧ s = s' := by
  change EStateM.Result.error (Failure.fault f) s = .error e s' ↔ _
  simp

theorem known_eq_error_iff {o : Except Fault α} {e : Failure} :
    known o s = .error e s' ↔ ∃ f, o = .error f ∧ .fault f = e ∧ s = s' := by
  cases o with
  | ok x => exact iff_of_false nofun nofun
  | error f => simp [known, fault_eq_error_iff]

theorem ask_eq_error_iff {target : Target} {cls : RegClass} {q : Request} {e : Failure} :
    ask target cls q s = .error e s' ↔
      ∃ f, target.answer cls q = .error f ∧ .error f = e ∧ s.request q = s' := by
  refine bind_eq_error_iff.trans ?_
  simp only [modify_eq_ok_iff]
  cases target.answer cls q with
  | ok j =>
    refine iff_of_false ?_ nofun
    rintro (h | ⟨_, _, rfl, h⟩) <;> cases h
  | error f =>
    constructor
    · rintro (h | ⟨_, _, rfl, h⟩) <;> cases h
      exact ⟨f, rfl, rfl, rfl⟩
    · rintro ⟨_, ⟨⟩, rfl, rfl⟩
      exact Or.inr ⟨⟨⟩, _, rfl, rfl⟩

/-! ### A step repeated along a list -/

theorem forM_nil_eq_ok_iff {f : α → Step PUnit} {u : PUnit} :
    (([] : List α).forM f) s = .ok u s' ↔ s = s' :=
  pure_eq_ok_iff.trans (and_iff_right rfl)

theorem forM_cons_eq_ok_iff {f : α → Step PUnit} {a : α} {l : List α} {u : PUnit} :
    ((a :: l).forM f) s = .ok u s' ↔ ∃ t, f a s = .ok ⟨⟩ t ∧ (l.forM f) t = .ok u s' := by
  refine bind_eq_ok_iff.trans ⟨?_, ?_⟩
  · rintro ⟨_, t, ha, hl⟩
    exact ⟨t, ha, hl⟩
  · rintro ⟨t, ha, hl⟩
    exact ⟨⟨⟩, t, ha, hl⟩

theorem forM_append_eq_ok_iff {f : α → Step PUnit} {l l' : List α} {u : PUnit} :
    ((l ++ l').forM f) s = .ok u s' ↔
      ∃ t, (l.forM f) s = .ok ⟨⟩ t ∧ (l'.forM f) t = .ok u s' := by
  induction l generalizing s with
  | nil =>
    refine ⟨fun h => ⟨s, forM_nil_eq_ok_iff.2 rfl, h⟩, ?_⟩
    rintro ⟨t, ht, h⟩
    exact forM_nil_eq_ok_iff.1 ht ▸ h
  | cons a l ih =>
    rw [List.cons_append, forM_cons_eq_ok_iff]
    constructor
    · rintro ⟨t, ha, hl⟩
      obtain ⟨r, hr, hl'⟩ := ih.1 hl
      exact ⟨r, forM_cons_eq_ok_iff.2 ⟨t, ha, hr⟩, hl'⟩
    · rintro ⟨r, hr, hl'⟩
      obtain ⟨t, ha, hl⟩ := forM_cons_eq_ok_iff.1 hr
      exact ⟨t, ha, ih.2 ⟨r, hl, hl'⟩⟩

/-- Steps that change nothing change nothing one after the other. -/
theorem forM_eq_ok_self {f : α → Step PUnit} {l : List α} (h : ∀ a ∈ l, f a s = .ok ⟨⟩ s) :
    (l.forM f) s = .ok ⟨⟩ s := by
  induction l with
  | nil => exact forM_nil_eq_ok_iff.2 rfl
  | cons a l ih =>
    refine forM_cons_eq_ok_iff.2 ⟨s, h a List.mem_cons_self, ?_⟩
    exact ih fun b hb => h b (List.mem_cons_of_mem a hb)

/-- When the steps along a list succeed, each of them does, from some state. -/
theorem exists_of_mem_forM {f : α → Step PUnit} {a : α} {l : List α} {u : PUnit} (ha : a ∈ l)
    (h : (l.forM f) s = .ok u s') : ∃ t t', f a t = .ok ⟨⟩ t' := by
  obtain ⟨pre, post, rfl⟩ := List.append_of_mem ha
  obtain ⟨t, -, hrest⟩ := forM_append_eq_ok_iff.1 h
  obtain ⟨t', ha, -⟩ := forM_cons_eq_ok_iff.1 hrest
  exact ⟨t, t', ha⟩

/-- **What each step along a list keeps, the list keeps.** -/
theorem forM_keeps {f : α → Step PUnit} {P : State → Prop} {l : List α} {u : PUnit}
    (hP : ∀ a ∈ l, ∀ t t', P t → f a t = .ok ⟨⟩ t' → P t')
    (hs : P s) (h : (l.forM f) s = .ok u s') : P s' := by
  induction l generalizing s with
  | nil => exact forM_nil_eq_ok_iff.1 h ▸ hs
  | cons a l ih =>
    obtain ⟨t, ha, hl⟩ := forM_cons_eq_ok_iff.1 h
    exact ih (fun b hb => hP b (List.mem_cons_of_mem a hb))
      (hP a List.mem_cons_self s t hs ha) hl

/-- **What each step along a list builds up, the list builds up.** The property may speak of
the part of the list that is done. -/
theorem forM_builds {f : α → Step PUnit} {P : List α → State → Prop} {all : List α} {u : PUnit}
    (hP : ∀ done a rest, all = done ++ a :: rest → ∀ t t', P done t → f a t = .ok ⟨⟩ t' →
      P (done ++ [a]) t')
    (hs : P [] s) (h : (all.forM f) s = .ok u s') : P all s' := by
  suffices hrest : ∀ rest done (s : State), all = done ++ rest → P done s →
      (rest.forM f) s = .ok u s' → P all s' from hrest all [] s rfl hs h
  intro rest
  induction rest with
  | nil =>
    intro done s hall hdone h
    obtain rfl := forM_nil_eq_ok_iff.1 h
    rwa [hall, List.append_nil]
  | cons a rest ih =>
    intro done s hall hdone h
    obtain ⟨t, ha, hl⟩ := forM_cons_eq_ok_iff.1 h
    exact ih (done ++ [a]) t (by simp [hall]) (hP done a rest hall s t hdone ha) hl

/-- The steps along a list succeed if each does, from a state of which as much is known as
the steps before it have built up. -/
theorem forM_builds_succeeds {f : α → Step PUnit} {P : List α → State → Prop} {all : List α}
    (hP : ∀ done a rest, all = done ++ a :: rest → ∀ t, P done t →
      ∃ t', f a t = .ok ⟨⟩ t' ∧ P (done ++ [a]) t')
    (hs : P [] s) : ∃ s', (all.forM f) s = .ok ⟨⟩ s' ∧ P all s' := by
  suffices hrest : ∀ rest done (s : State), all = done ++ rest → P done s →
      ∃ s', (rest.forM f) s = .ok ⟨⟩ s' ∧ P all s' from hrest all [] s rfl hs
  intro rest
  induction rest with
  | nil =>
    intro done s hall hdone
    refine ⟨s, forM_nil_eq_ok_iff.2 rfl, ?_⟩
    rwa [hall, List.append_nil]
  | cons a rest ih =>
    intro done s hall hdone
    obtain ⟨t, ha, ht⟩ := hP done a rest hall s hdone
    obtain ⟨s', hl, hs'⟩ := ih (done ++ [a]) t (by simp [hall]) ht
    exact ⟨s', forM_cons_eq_ok_iff.2 ⟨t, ha, hl⟩, hs'⟩

/-! ### Failures that cannot arise -/

/-- A step never ends in a failure. -/
def Avoids (m : Step α) (e : Failure) : Prop := ∀ s s', m s ≠ .error e s'

theorem Avoids.bind {m : Step α} {f : α → Step β} {e : Failure} (hm : Avoids m e)
    (hf : ∀ x, Avoids (f x) e) : Avoids (m >>= f) e := by
  intro s s' h
  rcases bind_eq_error_iff.1 h with h | ⟨x, t, -, h⟩
  · exact hm _ _ h
  · exact hf x _ _ h

theorem avoids_pure {x : α} {e : Failure} : Avoids (pure x) e := fun _ _ h => nomatch h

theorem avoids_get {e : Failure} : Avoids get e := fun _ _ h => nomatch h

theorem avoids_modify {f : State → State} {e : Failure} : Avoids (modify f) e :=
  fun _ _ h => nomatch h

theorem avoids_fault {f : Fault} {e : Failure} (h : .fault f ≠ e) :
    Avoids (fault f : Step α) e := by
  intro s s' hfault
  cases hfault
  exact h rfl

theorem avoids_known {o : Except Fault α} {f : Fault} (h : o ≠ .error f) :
    Avoids (known o) (.fault f) := by
  cases o with
  | ok x => exact avoids_pure
  | error f' =>
    refine avoids_fault fun hf => h ?_
    cases hf
    rfl

theorem avoids_ask {target : Target} {cls : RegClass} {q : Request} {f : Fault} :
    Avoids (ask target cls q) (.fault f) := by
  intro s s' h
  obtain ⟨e, -, he, -⟩ := ask_eq_error_iff.1 h
  cases he

theorem avoids_forM {f : α → Step PUnit} {l : List α} {e : Failure}
    (h : ∀ a ∈ l, Avoids (f a) e) : Avoids (l.forM f) e := by
  induction l with
  | nil => exact avoids_pure
  | cons a l ih =>
    exact (h a List.mem_cons_self).bind fun _ =>
      ih fun b hb => h b (List.mem_cons_of_mem a hb)

/-- **A list of steps fails at one of them**, after those before it have succeeded. -/
theorem exists_of_forM_eq_error {f : α → Step PUnit} {l : List α} {e : Failure}
    (h : (l.forM f) s = .error e s') :
    ∃ done a rest t, l = done ++ a :: rest ∧ (done.forM f) s = .ok ⟨⟩ t ∧
      f a t = .error e s' := by
  induction l generalizing s with
  | nil => cases h
  | cons a l ih =>
    rcases bind_eq_error_iff.1 h with ha | ⟨⟨⟩, t, ha, hl⟩
    · exact ⟨[], a, l, s, rfl, forM_nil_eq_ok_iff.2 rfl, ha⟩
    · obtain ⟨done, b, rest, t', rfl, hdone, hb⟩ := ih hl
      exact ⟨a :: done, b, rest, t', rfl, forM_cons_eq_ok_iff.2 ⟨t, ha, hdone⟩, hb⟩

end Step

end Residency
