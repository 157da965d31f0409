import Mathlib.Data.List.Induction
import Residency.Proofs.Folded

/-!
# What the events so far say

The table of residents is kept up to date event by event, but what it says of a value can be read
off the events alone. A virtual register is **in place** (`Residency.InPlace`) when an event has
accessed it in its register and none since then has displaced it (`Residency.Event.displaces`),
and that is when its register holds it (`Residency.Follows`): so it is when a block begins, each
instruction keeps it so (`Residency.Follows.next`), and it is so between any two events of one.

Looking ahead from a value that was written, two things can happen to it. It **lasts**
(`Residency.Lasts`) as long as no event writes it again and none displaces it, and it is
**renewed** (`Residency.Renewed`) when it is written again before it is displaced. A renewed value
never has to go to its slot.

What a single event changes is said in four lemmas, whatever else the state holds:
`Residency.Performed.keeps`, `Residency.Performed.loses`, `Residency.Performed.get?_of_writes` and
`Residency.Performed.holds_of_accessed`.
-/

namespace Residency

open Step

variable {c : Context} {a : Allocation} {id : Site} {i : Inst} {e : Event} {l l' : List Inst}
  {es done rest : List Event} {s s' t m : State} {r q : Reg} {u v : VReg} {x : Resident}

/-! ### What an event accesses, and what it displaces -/

/-- Does a register overlap the one of a virtual register? -/
def Allocation.meets (a : Allocation) (q : Reg) (v : VReg) : Bool :=
  match a.reg? v with
  | .ok (some r) => q.overlaps r
  | _ => false

theorem Allocation.meets_iff (hr : a.reg? v = .ok (some r)) : a.meets q v = q.overlaps r := by
  rw [meets, hr]

namespace Event

/-- The virtual register that an event accesses in its register. -/
def accessed? : Event → Option VReg
  | .read v => some v
  | .modify v => some v
  | .define v => some v
  | .fold _ => none
  | .overwrite _ => none

/-- Does an event displace the value of a virtual register? It does if it uses the value in its
slot, if it accesses another value whose register overlaps, or if it overwrites a register that
does. -/
def displaces (a : Allocation) (v : VReg) (e : Event) : Bool :=
  match e with
  | .fold u => u = v
  | .overwrite q => a.meets q v
  | .read u => other u
  | .modify u => other u
  | .define u => other u
where
  /-- Is it another virtual register, and does its register overlap? -/
  other (u : VReg) : Bool :=
    u ≠ v && match a.reg? u with
      | .ok (some q) => a.meets q v
      | _ => false

theorem Writes.accessed? (h : e.Writes v) : e.accessed? = some v := by
  rcases h with rfl | rfl <;> rfl

theorem not_writes_read : ¬ (read u).Writes v := by
  rintro (h | h) <;> cases h

theorem not_writes_fold : ¬ (fold u).Writes v := by
  rintro (h | h) <;> cases h

theorem not_writes_overwrite : ¬ (overwrite q).Writes v := by
  rintro (h | h) <;> cases h

/-- An event that accesses a value displaces the others whose registers overlap. -/
theorem displaces_of_accessed (h : e.accessed? = some u) (hq : a.reg? u = .ok (some q))
    (hr : a.reg? v = .ok (some r)) : e.displaces a v = (decide (u ≠ v) && q.overlaps r) := by
  cases e with
  | fold w => cases h
  | overwrite p => cases h
  | _ => cases h; simp [displaces, displaces.other, hq, Allocation.meets_iff hr]

end Event

/-! ### Values that are in place -/

/-- The value of a virtual register is in place after some events: one of them has accessed it, and
none since then has displaced it. -/
def InPlace (a : Allocation) (es : List Event) (v : VReg) : Prop :=
  ∃ pre e post, es = pre ++ e :: post ∧ e.accessed? = some v ∧
    ∀ e' ∈ post, e'.displaces a v = false

theorem not_inPlace_nil : ¬ InPlace a [] v := by
  rintro ⟨pre, e, post, h, -⟩
  simp at h

/-- A place in a list that has grown at its end is the new one, or was there before. -/
theorem split_concat {pre post : List Event} {e' : Event} (h : es ++ [e] = pre ++ e' :: post) :
    (pre = es ∧ e' = e ∧ post = []) ∨ ∃ post', post = post' ++ [e] ∧ es = pre ++ e' :: post' := by
  rcases List.append_eq_append_iff.1 h with ⟨k, rfl, hk⟩ | ⟨k, rfl, hk⟩
  · obtain ⟨rfl, hnil⟩ | ⟨k', rfl, hk'⟩ := List.cons_eq_append_iff.1 hk
    · obtain ⟨rfl, rfl⟩ := List.cons.inj hnil
      exact Or.inl ⟨by simp, rfl, rfl⟩
    · simp at hk'
  · obtain ⟨rfl, hnil⟩ | ⟨k', rfl, hk'⟩ := List.cons_eq_append_iff.1 hk
    · obtain ⟨rfl, rfl⟩ := List.cons.inj hnil
      exact Or.inl ⟨by simp, rfl, rfl⟩
    · exact Or.inr ⟨k', hk', rfl⟩

/-- **One event more**: a value is in place if the event accesses it, or if it was in place and the
event does not displace it. -/
theorem inPlace_concat_iff :
    InPlace a (es ++ [e]) v ↔
      e.accessed? = some v ∨ InPlace a es v ∧ e.displaces a v = false := by
  constructor
  · rintro ⟨pre, e', post, h, he', hpost⟩
    rcases split_concat h with ⟨-, rfl, -⟩ | ⟨post', rfl, hes⟩
    · exact Or.inl he'
    · exact Or.inr ⟨⟨pre, e', post', hes, he', fun p hp => hpost p (by simp [hp])⟩,
        hpost e (by simp)⟩
  · rintro (he | ⟨⟨pre, e', post, rfl, he', hpost⟩, hd⟩)
    · exact ⟨es, e, [], rfl, he, by simp⟩
    · refine ⟨pre, e', post ++ [e], by simp, he', fun p hp => ?_⟩
      rcases List.mem_append.1 hp with hp | hp
      · exact hpost p hp
      · exact List.mem_singleton.1 hp ▸ hd

/-- Whether a value is in place, kept up to date event by event. -/
def inPlaceAfter (a : Allocation) (es : List Event) (v : VReg) : Bool :=
  es.foldl (fun b e => e.accessed? = some v || (b && !e.displaces a v)) false

theorem inPlaceAfter_iff : inPlaceAfter a es v = true ↔ InPlace a es v := by
  induction es using List.reverseRecOn with
  | nil => simp [inPlaceAfter, not_inPlace_nil]
  | append_singleton es e ih =>
    rw [inPlace_concat_iff, ← ih]
    simp [inPlaceAfter]

instance : Decidable (InPlace a es v) := decidable_of_iff _ inPlaceAfter_iff

/-! ### Values that last, and values that are renewed -/

/-- A value lasts through some events: none writes it again, and none displaces it. -/
def Lasts (a : Allocation) (es : List Event) (v : VReg) : Prop :=
  ∀ e ∈ es, ¬ e.Writes v ∧ e.displaces a v = false

/-- A value is renewed by some events: one of them writes it again, and none before it displaces
it. -/
def Renewed (a : Allocation) (es : List Event) (v : VReg) : Prop :=
  ∃ pre e post, es = pre ++ e :: post ∧ e.Writes v ∧ ∀ e' ∈ pre, e'.displaces a v = false

theorem lasts_nil : Lasts a [] v := nofun

theorem not_renewed_nil : ¬ Renewed a [] v := by
  rintro ⟨pre, e, post, h, -⟩
  simp at h

theorem lasts_concat_iff :
    Lasts a (es ++ [e]) v ↔ Lasts a es v ∧ ¬ e.Writes v ∧ e.displaces a v = false := by
  constructor
  · exact fun h => ⟨fun p hp => h p (by simp [hp]), h e (by simp)⟩
  · rintro ⟨h, he⟩ p hp
    rcases List.mem_append.1 hp with hp | hp
    · exact h p hp
    · exact List.mem_singleton.1 hp ▸ he

/-- A value that has not lasted, though nothing has displaced it, is renewed. -/
theorem renewed_of_not_lasts (hd : ∀ e ∈ es, e.displaces a v = false) (h : ¬ Lasts a es v) :
    Renewed a es v := by
  obtain ⟨e, he, hw⟩ : ∃ e ∈ es, e.Writes v := by
    by_contra hnone
    push Not at hnone
    exact h fun e he => ⟨hnone e he, hd e he⟩
  obtain ⟨pre, post, rfl⟩ := List.append_of_mem he
  exact ⟨pre, e, post, rfl, hw, fun p hp => hd p (by simp [hp])⟩

/-- **One event more**: a value is renewed if it was, or if it has lasted and the event writes
it. -/
theorem renewed_concat_iff :
    Renewed a (es ++ [e]) v ↔ Renewed a es v ∨ Lasts a es v ∧ e.Writes v := by
  constructor
  · rintro ⟨pre, e', post, h, hw, hpre⟩
    rcases split_concat h with ⟨rfl, rfl, -⟩ | ⟨post', rfl, hes⟩
    · by_cases hlasts : Lasts a pre v
      · exact Or.inr ⟨hlasts, hw⟩
      · exact Or.inl (renewed_of_not_lasts hpre hlasts)
    · exact Or.inl ⟨pre, e', post', hes, hw, hpre⟩
  · rintro (⟨pre, e', post, rfl, hw, hpre⟩ | ⟨hlasts, hw⟩)
    · exact ⟨pre, e', post ++ [e], by simp, hw, hpre⟩
    · exact ⟨es, e, [], rfl, hw, fun p hp => (hlasts p hp).2⟩

/-! ### What an event changes -/

theorem Table.holds_eq_false {tab : Table} (h : tab.get? r = none) : tab.holds r v = false := by
  rw [Table.holds, h]

/-- What is in a register that overlaps the one of another value is not in place with it. -/
theorem Tracked.overlaps_eq_false (h : Tracked c l done s) (hh : s.table.holds r u = true)
    (hx : s.table.get? q = some x) (hne : u ≠ x.vreg) : r.overlaps q = false := by
  obtain ⟨y, hy, rfl⟩ := Table.holds_iff.1 hh
  refine Bool.eq_false_iff.2 fun hov => hne ?_
  obtain rfl := h.apart hy hx hov
  exact congrArg Resident.vreg (Option.some.inj (hy.symm.trans hx))

/-- An event that accesses another value, and does not displace what is in a register, has its own
register elsewhere. -/
theorem Tracked.apart_of_accessed (h : Tracked c l done s) (hx : s.table.get? q = some x)
    (ha : e.accessed? = some u) (hr : c.alloc.reg? u = .ok (some r)) (hne : u ≠ x.vreg)
    (hd : e.displaces c.alloc x.vreg = false) : r.overlaps q = false := by
  rw [Event.displaces_of_accessed ha hr (h.placed hx)] at hd
  simpa [hne] using hd

theorem ne_of_overlaps_eq_false (h : r.overlaps q = false) : q ≠ r := by
  rintro rfl
  exact Bool.false_ne_true (h.symm.trans (Reg.overlaps_refl q))

/-- **What an event neither writes nor displaces stays** in its register as it is. -/
theorem Performed.keeps (htr : Tracked c l done s) (hp : Performed c s e s')
    (hx : s.table.get? q = some x) (hw : ¬ e.Writes x.vreg)
    (hd : e.displaces c.alloc x.vreg = false) : s'.table.get? q = some x := by
  have hevict : ∀ {r s t}, evict c r s = .ok () t → s.table.get? q = some x →
      r.overlaps q = false → t.table.get? q = some x := fun he hx hov =>
    ((evict_empties he).get?_of_kept hov).trans hx
  have hhold : ∀ {r y} {t : State}, t.table.get? q = some x → q ≠ r →
      (t.hold r y).table.get? q = some x := fun ht hne => by
    rw [State.hold, Table.get?_hold, if_neg hne, ht]
  -- A value that is brought into its register is not the one that is there already.
  have hnew : ∀ {r u}, c.alloc.reg? u = .ok (some r) → s.table.holds r u = false →
      u ≠ x.vreg := by
    rintro r u hr hh rfl
    obtain rfl := Allocation.reg_unique hr (htr.placed hx)
    exact Bool.false_ne_true (hh.symm.trans (Table.holds_of_get? hx))
  cases hp with
  | foldAway hr => exact hx
  | foldAbsent hr hh => exact hx
  | @fold u r _ hr hh he =>
    have hne : u ≠ x.vreg := by simpa [Event.displaces] using hd
    exact hevict he hx (htr.overlaps_eq_false hh hx hne)
  | readHeld hr hh => rwa [State.table_reserve]
  | @readLoaded _ _ t _ _ _ hr hh he hs hc hi =>
    have hov := htr.apart_of_accessed hx rfl hr (hnew hr hh) hd
    rw [State.table_reserve]
    exact hhold (t := t) (hevict he hx hov) (ne_of_overlaps_eq_false hov)
  | readFound hr hh he hs =>
    have hov := htr.apart_of_accessed hx rfl hr (hnew hr hh) hd
    rw [State.table_reserve]
    exact hhold (hevict he hx hov) (ne_of_overlaps_eq_false hov)
  | @modify u r y hr hy =>
    have hne : u ≠ x.vreg := fun h => hw (Or.inl (h ▸ rfl))
    exact hhold hx (ne_of_overlaps_eq_false (htr.apart_of_accessed hx rfl hr hne hd))
  | @redefine u r hr hh =>
    have hne : u ≠ x.vreg := fun h => hw (Or.inr (h ▸ rfl))
    exact hhold hx (ne_of_overlaps_eq_false (htr.apart_of_accessed hx rfl hr hne hd))
  | define hr hh he =>
    have hov := htr.apart_of_accessed hx rfl hr (hnew hr hh) hd
    exact hhold (hevict he hx hov) (ne_of_overlaps_eq_false hov)
  | @overwrite r _ he =>
    refine hevict he hx ?_
    rwa [Event.displaces, Allocation.meets_iff (htr.placed hx)] at hd

/-- A change in place finds the value that it changes. -/
def Finds (c : Context) (s : State) (e : Event) : Prop :=
  ∀ v r, e = .modify v → c.alloc.reg? v = .ok (some r) → s.table.holds r v = true

/-- **What an event displaces is not in its register** when the event is over. -/
theorem Performed.loses (htr : Tracked c l done s) (hfinds : Finds c s e)
    (hp : Performed c s e s') (hr : c.alloc.reg? v = .ok (some q))
    (hd : e.displaces c.alloc v = true) : s'.table.holds q v = false := by
  have hevict : ∀ {r s t}, evict c r s = .ok () t → r.overlaps q = true →
      t.table.holds q v = false := fun he hov =>
    Table.holds_eq_false ((evict_empties he).get?_of_gone hov)
  -- Another value comes into a register that overlaps, or is there already.
  have hhold : ∀ {p u y} {t : State}, t.table.holds q v = false → y.vreg = u → u ≠ v →
      (t.hold p y).table.holds q v = false := by
    rintro p u y t ht rfl hne
    rw [Table.holds, State.hold, Table.get?_hold]
    by_cases hq : q = p
    · simpa [hq] using hne
    · rw [if_neg hq]
      exact ht
  have hother : ∀ {p u}, s.table.holds p u = true → u ≠ v → p.overlaps q = true →
      s.table.holds q v = false := by
    intro p u hh hne hov
    refine Bool.eq_false_iff.2 fun hh' => ?_
    obtain ⟨x, hx, rfl⟩ := Table.holds_iff.1 hh'
    exact Bool.false_ne_true ((htr.overlaps_eq_false hh hx hne).symm.trans hov)
  have hacc : ∀ {u p}, e.accessed? = some u → c.alloc.reg? u = .ok (some p) →
      u ≠ v ∧ p.overlaps q = true := by
    intro u p ha hp
    rw [Event.displaces_of_accessed ha hp hr] at hd
    simpa using hd
  cases hp with
  | @foldAway u hu =>
    obtain rfl : u = v := by simpa [Event.displaces] using hd
    cases hr.symm.trans hu
  | @foldAbsent u p hu hh =>
    obtain rfl : u = v := by simpa [Event.displaces] using hd
    exact Allocation.reg_unique hu hr ▸ hh
  | @fold u p _ hu hh he =>
    obtain rfl : u = v := by simpa [Event.displaces] using hd
    exact hevict he (Allocation.reg_unique hu hr ▸ Reg.overlaps_refl p)
  | readHeld hu hh =>
    obtain ⟨hne, hov⟩ := hacc rfl hu
    rw [State.table_reserve]
    exact hother hh hne hov
  | @readLoaded _ _ t _ _ _ hu hh he hs hc hi =>
    obtain ⟨hne, hov⟩ := hacc rfl hu
    rw [State.table_reserve]
    exact hhold (t := t) (hevict he hov) rfl hne
  | readFound hu hh he hs =>
    obtain ⟨hne, hov⟩ := hacc rfl hu
    rw [State.table_reserve]
    exact hhold (hevict he hov) rfl hne
  | modify hu hx =>
    obtain ⟨hne, hov⟩ := hacc rfl hu
    have hh := hfinds _ _ rfl hu
    obtain ⟨y, hy, hyv⟩ := Table.holds_iff.1 hh
    obtain rfl := Option.some.inj (hx.symm.trans hy)
    exact hhold (hother hh hne hov) hyv hne
  | redefine hu hh =>
    obtain ⟨hne, hov⟩ := hacc rfl hu
    exact hhold (hother hh hne hov) rfl hne
  | define hu hh he =>
    obtain ⟨hne, hov⟩ := hacc rfl hu
    exact hhold (hevict he hov) rfl hne
  | overwrite he =>
    refine hevict he ?_
    rwa [Event.displaces, Allocation.meets_iff hr] at hd

/-- **What an event writes is in its register**, as old as the instruction at hand. -/
theorem Performed.get?_of_writes (hfinds : Finds c s e) (hp : Performed c s e s')
    (hr : c.alloc.reg? v = .ok (some q)) (hw : e.Writes v) :
    s'.table.get? q = some ⟨v, true, s.out.size⟩ := by
  rcases hw with rfl | rfl
  · cases hp with
    | modify hu hx =>
      obtain rfl := Allocation.reg_unique hu hr
      obtain ⟨y, hy, rfl⟩ := Table.holds_iff.1 (hfinds v _ rfl hu)
      obtain rfl := Option.some.inj (hx.symm.trans hy)
      simp [State.hold]
  · cases hp with
    | redefine hu hh =>
      obtain rfl := Allocation.reg_unique hu hr
      simp [State.hold]
    | define hu hh he =>
      obtain rfl := Allocation.reg_unique hu hr
      simp [State.hold, (evict_empties he).size]

/-- **What an event accesses is in its register.** -/
theorem Performed.holds_of_accessed (hfinds : Finds c s e) (hp : Performed c s e s')
    (hr : c.alloc.reg? v = .ok (some q)) (ha : e.accessed? = some v) :
    s'.table.holds q v = true := by
  have hwrites : e.Writes v → s'.table.holds q v = true := fun hw =>
    Table.holds_of_get? (x := ⟨v, true, s.out.size⟩) (hp.get?_of_writes hfinds hr hw)
  cases e with
  | fold u => cases ha
  | overwrite p => cases ha
  | modify u => cases ha; exact hwrites (Or.inl rfl)
  | define u => cases ha; exact hwrites (Or.inr rfl)
  | read u =>
    cases ha
    cases hp with
    | readHeld hu hh =>
      obtain rfl := Allocation.reg_unique hu hr
      rwa [State.table_reserve]
    | @readLoaded _ _ t _ _ _ hu hh he hs hc hi =>
      obtain rfl := Allocation.reg_unique hu hr
      rw [State.table_reserve]
      exact Table.holds_of_get? (x := ⟨v, false, t.out.size⟩) (by simp [State.hold])
    | @readFound _ _ t hu hh he hs =>
      obtain rfl := Allocation.reg_unique hu hr
      rw [State.table_reserve]
      exact Table.holds_of_get? (x := ⟨v, false, t.out.size⟩) (by simp [State.hold])

/-! ### The table follows the events -/

/-- The table says what the events say: a register holds a value if it is in place. -/
def Follows (c : Context) (es : List Event) (s : State) : Prop :=
  ∀ v r, c.alloc.reg? v = .ok (some r) → (s.table.holds r v = true ↔ InPlace c.alloc es v)

theorem Follows.start : Follows c [] {} := fun _ _ _ =>
  iff_of_false (by simp [Table.holds]) not_inPlace_nil

theorem Follows.congr (h : Follows c es s) (ht : s'.table = s.table) : Follows c es s' := by
  rw [Follows, ht]
  exact h

/-- **The table follows every event.** -/
theorem Follows.perform (htr : Tracked c l done s) (hfinds : Finds c s e) (h : Follows c es s)
    (hp : Performed c s e s') : Follows c (es ++ [e]) s' := by
  intro v q hr
  rw [inPlace_concat_iff]
  constructor
  · intro hh
    have hd : e.displaces c.alloc v = false := Bool.eq_false_iff.2 fun hd =>
      Bool.false_ne_true ((hp.loses htr hfinds hr hd).symm.trans hh)
    obtain ⟨x, hx, rfl⟩ := Table.holds_iff.1 hh
    rcases hp.resident hx with hx | ⟨rfl, -⟩ | ⟨u, y, rfl, -, hy, rfl⟩ | ⟨rfl, -⟩
    · exact Or.inr ⟨(h _ _ hr).1 (Table.holds_of_get? hx), hd⟩
    · exact Or.inl rfl
    · have hholds := (h y.vreg q hr).1 (Table.holds_of_get? hy)
      exact Or.inr ⟨hholds, hd⟩
    · exact Or.inl rfl
  · rintro (ha | ⟨hin, hd⟩)
    · exact hp.holds_of_accessed hfinds hr ha
    · by_cases hw : e.Writes v
      · exact hp.holds_of_accessed hfinds hr hw.accessed?
      · obtain ⟨x, hx, rfl⟩ := Table.holds_iff.1 ((h v q hr).2 hin)
        exact Table.holds_of_get? (hp.keeps htr hx hw hd)

/-! ### The events of a block -/

/-- The events of an instruction, in order. -/
def Event.ofInst (a : Allocation) (id : Site) (i : Inst) : List Event :=
  Event.before a id i ++ Event.after i

/-- The events of the instructions of a block from position `n` on, in order. -/
def history (a : Allocation) (b : BlockId) : Nat → List Inst → List Event
  | _, [] => []
  | n, i :: l => Event.ofInst a ⟨b, UInt32.ofNat n⟩ i ++ history a b (n + 1) l

theorem history_append {b : BlockId} {n : Nat} :
    history a b n (l ++ l') = history a b n l ++ history a b (n + l.length) l' := by
  induction l generalizing n with
  | nil => rfl
  | cons i l ih =>
    rw [List.cons_append, history, history, ih, List.append_assoc, List.length_cons,
      Nat.add_right_comm, Nat.add_assoc]

theorem eq_ofNat_of_word {n : Nat} {w : UInt32} (h : word n = .ok w) : w = UInt32.ofNat n := by
  rw [← toNat_of_word h, UInt32.ofNat_toNat]

theorem finds_of_early (he : e.Early) : Finds c s e := by
  rintro v r rfl
  exact he.elim

theorem Late.finds (h : Late c l i done s) (hsplit : Event.after i = done ++ e :: rest) :
    Finds c s e := by
  rintro v r rfl hr
  exact h.held.found hsplit hr

/-- What is known before the place of an instruction, when some of its events are done. -/
structure Upto (c : Context) (l : List Inst) (es done : List Event) (s : State) : Prop where
  /-- The table says where the values are. -/
  tracked : Tracked c l [] s
  /-- It follows the events. -/
  follows : Follows c (es ++ done) s
  /-- What was read is there and reserved. -/
  reading : Reading c done s

theorem Upto.perform (he : e.Early) (h : Upto c l es done s) (hp : Performed c s e s') :
    Upto c l es (done ++ [e]) s' where
  tracked := h.tracked.perform_early he hp
  follows := List.append_assoc es done [e] ▸ h.follows.perform h.tracked (finds_of_early he) hp
  reading := h.reading.perform he hp

theorem Upto.start (htr : Tracked c l [] s) (hres : s.reserved = []) (h : Follows c es s) :
    Upto c l es [] s :=
  ⟨htr, (List.append_nil es).symm ▸ h, .start hres⟩

/-- **Up to the place of an instruction** the table follows its events one by one. -/
theorem upto_of_append (h : Upto c l es [] s) (hsplit : Event.before c.alloc id i = done ++ rest)
    (hs : (done.forM (Event.perform c id)) s = .ok () t) : Upto c l es done t :=
  h.tracked.builds (P := Upto c l es) h hsplit hs fun _ _ _ _ he _ hupto hp =>
    hupto.perform he hp

/-- **Behind its place** as well. -/
theorem follows_of_after (hlate : Late c l i [] m.release) (h : Follows c es m.release)
    (hsplit : Event.after i = done ++ rest)
    (hs : (done.forM (Event.perform c id)) m.release = .ok () t) : Follows c (es ++ done) t := by
  refine hlate.builds (P := fun done => Follows c (es ++ done))
    ((List.append_nil es).symm ▸ h) hsplit hs fun pre e post u u' hall hlate hfollows hp => ?_
  rw [← List.append_assoc]
  exact hfollows.perform hlate.tracked (hlate.finds hall) hp

/-- **The table follows an instruction.** -/
theorem Follows.next (htr : Tracked c l [] s) (hres : s.reserved = []) (h : Follows c es s)
    (hs : lowerInst c id i s = .ok () s') : Follows c (es ++ Event.ofInst c.alloc id i) s' := by
  obtain ⟨m, t, hm, ht, rfl⟩ := lowerInst_eq_ok_iff.1 hs
  have hupto := upto_of_append (.start htr hres h) (List.append_nil _).symm hm
  have hrelease : Follows c (es ++ Event.before c.alloc id i) m.release :=
    hupto.follows.congr rfl
  have hlate := Late.start hupto.tracked hupto.reading
  have ht := follows_of_after hlate hrelease (List.append_nil _).symm ht
  rw [List.append_assoc] at ht
  exact ht.congr rfl

end Residency
