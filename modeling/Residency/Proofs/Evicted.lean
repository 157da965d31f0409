import Mathlib.Data.List.Forall2
import Residency.Proofs.Obstacle
import Residency.Proofs.Pairwise

/-!
# Everything that an eviction does

`Residency.Emptied` says which registers an eviction empties. This file says all that it does
(`Residency.Evicted`): behind each entry of the lowered block stand as many stores more as there
were dirty values that the entry had made, in the order of their registers, and the counters say
how many values were stored and how many were dropped. Nothing else is changed. This is so for any
registers that are emptied one after the other, and so it is also known of those that were emptied
before an eviction fails at one of them.

An eviction of a register leaves those that overlap it free, so there is nothing left for a second
one to do (`Residency.evict_complete`).
-/

namespace Residency

open Step

variable {c : Context} {r q : Reg} {rs rs' : List Reg} {s s' t : State} {x : Resident} {j : Inst}
  {k : Nat} {e : Failure}

/-! ### What registers hold -/

namespace Table

/-- Does a register hold a dirty value? -/
def isDirty (tab : Table) (r : Reg) : Bool := (tab.get? r).any Resident.dirty

/-- Does a register hold a clean value? -/
def isClean (tab : Table) (r : Reg) : Bool := (tab.get? r).any fun x => !x.dirty

/-- Does a register hold a dirty value that the instruction at a position made? -/
def isDirtySince (tab : Table) (k : Nat) (r : Reg) : Bool :=
  (tab.get? r).any fun x => x.dirty && x.since == k

end Table

/-- An instruction is the store of what a register holds, to the slot of its virtual register. -/
def Context.StoreHeld (c : Context) (s : State) (r : Reg) (j : Inst) : Prop :=
  ∃ x slot cls, s.table.get? r = some x ∧ c.alloc.slot? x.vreg = .ok (some slot) ∧
    c.func.classOf x.vreg = .ok cls ∧ c.target.store r slot cls = .ok j

theorem Context.storeHeld_congr (h : t.table.get? r = s.table.get? r) :
    c.StoreHeld t r j ↔ c.StoreHeld s r j := by
  rw [StoreHeld, StoreHeld, h]

/-! ### Registers emptied one after the other -/

/-- Some registers have been emptied, in an order, and nothing else was done but what this takes. -/
structure Evicted (c : Context) (rs : List Reg) (s s' : State) : Prop
    extends Emptied (fun q => decide (q ∈ rs)) s s' where
  /-- Every dirty value was made by an instruction that is in its place. -/
  placed : ∀ q ∈ rs, ∀ x, s.table.get? q = some x → x.dirty = true → x.since < s.out.size
  /-- Behind each instruction there is one store more for each dirty value that it had made. -/
  entries : ∀ k : Nat, ∃ js, List.Forall₂ (c.StoreHeld s) (rs.filter (s.table.isDirtySince k)) js ∧
    s'.out[k]? = (s.out[k]?).map fun e => { e with stores := e.stores ++ js }
  /-- The stores are counted, and so are the clean values. -/
  stats : s'.stats = (s.stats.raise (rs.countP s.table.isDirty) .spills).raise
    (rs.countP s.table.isClean) .cleanEvictions

namespace Evicted

theorem nil : Evicted c [] s s where
  get? q := by simp
  reserved := rfl
  size := rfl
  inst _ := rfl
  placed q hq := absurd hq List.not_mem_nil
  entries k := ⟨[], .nil, by simp⟩
  stats := rfl

/-- Other registers are emptied afterwards. -/
theorem append (h : Evicted c rs s t) (h' : Evicted c rs' t s') (hdisj : ∀ q ∈ rs', q ∉ rs) :
    Evicted c (rs ++ rs') s s' := by
  -- What is emptied later was there from the beginning.
  have hsame : ∀ q ∈ rs', t.table.get? q = s.table.get? q := fun q hq =>
    h.get?_of_kept (decide_eq_false (hdisj q hq))
  have hemp : Emptied (fun q => decide (q ∈ rs ++ rs')) s s' := by
    simpa only [List.mem_append, Bool.decide_or] using h.toEmptied.trans h'.toEmptied
  refine ⟨hemp, fun q hq x hx hd => ?_, fun k => ?_, ?_⟩
  · rcases List.mem_append.1 hq with hq | hq
    · exact h.placed q hq x hx hd
    · exact h.size ▸ h'.placed q hq x ((hsame q hq).trans hx) hd
  · obtain ⟨js, hjs, hout⟩ := h.entries k
    obtain ⟨js', hjs', hout'⟩ := h'.entries k
    have hfilter : rs'.filter (t.table.isDirtySince k) = rs'.filter (s.table.isDirtySince k) :=
      List.filter_congr fun q hq => by rw [Table.isDirtySince, hsame q hq, Table.isDirtySince]
    rw [hfilter, forall₂_congr_left fun q hq j =>
      Context.storeHeld_congr (hsame q (List.mem_of_mem_filter hq))] at hjs'
    refine ⟨js ++ js', ?_, ?_⟩
    · rw [List.filter_append]
      exact List.rel_append hjs hjs'
    · rw [hout', hout, Option.map_map]
      simp only [Function.comp_def, List.append_assoc]
  · have hdirty : rs'.countP t.table.isDirty = rs'.countP s.table.isDirty :=
      List.countP_congr fun q hq => by rw [Table.isDirty, hsame q hq, Table.isDirty]
    have hclean : rs'.countP t.table.isClean = rs'.countP s.table.isClean :=
      List.countP_congr fun q hq => by rw [Table.isClean, hsame q hq, Table.isClean]
    rw [h'.stats, h.stats, hdirty, hclean, List.countP_append, List.countP_append]
    simp only [Stats.raise, Nat.add_assoc]

/-- What was asked of the target is not looked at. -/
theorem with_asked (h : Evicted c rs s t) (asked : Array Request) :
    Evicted c rs s { t with asked := asked } where
  get? := h.get?
  reserved := h.reserved
  size := h.size
  inst := h.inst
  placed := h.placed
  entries := h.entries
  stats := h.stats

end Evicted

/-- The eviction of what one register holds does what it takes to empty it. -/
theorem Vacated.evicted (h : Vacated c r s s') : Evicted c [r] s s' := by
  have hemp : Emptied (fun q => decide (q ∈ [r])) s s' := by
    simpa only [List.mem_singleton] using h.empties
  cases h with
  | idle hx =>
    refine ⟨hemp, ?_, fun k => ⟨[], ?_, by simp⟩, ?_⟩
    · simp [hx]
    · simp [Table.isDirtySince, hx]
    · simp [Table.isDirty, Table.isClean, hx, Stats.raise]
  | drop hx hr hd =>
    refine ⟨hemp, ?_, fun k => ⟨[], ?_, ?_⟩, ?_⟩
    · simp [hx, hd]
    · simp [Table.isDirtySince, hx, hd]
    · simp [State.free, State.count, State.log]
    · simp [Table.isDirty, Table.isClean, hx, hd, Stats.raise, State.free, State.count, State.log,
        Stats.incr]
  | @store x slot cls i hx hr hd hs hb hc hi =>
    refine ⟨hemp, ?_, fun k => ?_, ?_⟩
    · simp [hx, hb]
    · by_cases hk : x.since = k
      · -- The value was made here, and so its store is here.
        refine ⟨[i], ?_, ?_⟩
        · simp only [List.filter_cons, List.filter_nil, Table.isDirtySince, hx, Option.any_some, hd,
            hk, beq_self_eq_true, Bool.and_self, if_true]
          exact .cons ⟨x, slot, cls, hx, hs, hc, hi⟩ .nil
        · simp [State.free, State.count, State.log, State.store, State.request,
            Array.getElem?_modify, hk]
      · refine ⟨[], ?_, ?_⟩
        · simp [Table.isDirtySince, hx, hk]
        · simp [State.free, State.count, State.log, State.store, State.request,
            Array.getElem?_modify, hk]
    · simp [Table.isDirty, Table.isClean, hx, hd, Stats.raise, State.free, State.count, State.log,
        State.store, State.request, Stats.incr]

/-- **Registers that are emptied one after the other**, each once, are all that is changed. -/
theorem evicted_of_vacates (hrs : rs.Nodup) (h : (rs.forM (vacate c)) s = .ok () s') :
    Evicted c rs s s' := by
  induction rs generalizing s with
  | nil =>
    obtain rfl := forM_nil_eq_ok_iff.1 h
    exact .nil
  | cons r rs ih =>
    obtain ⟨hr, hrs⟩ := List.nodup_cons.1 hrs
    obtain ⟨t, hvac, hrest⟩ := forM_cons_eq_ok_iff.1 h
    refine (vacate_eq_ok_iff.1 hvac).evicted.append (ih hrs hrest) fun q hq hqr => ?_
    exact hr (List.mem_singleton.1 hqr ▸ hq)

theorem Reg.nodup_cons_aliases (r : Reg) : (r :: r.aliases).Nodup :=
  List.nodup_cons.2 ⟨fun h => (Reg.mem_aliases.1 h).1 rfl, Reg.nodup_all.filter _⟩

/-! ### A register and its aliases -/

/-- Nothing is left to evict where all that overlaps a register is free. -/
theorem evict_eq_ok_self (h : ∀ q, r.overlaps q = true → s.table.get? q = none) :
    evict c r s = .ok () s := by
  rw [evict_eq_forM]
  exact forM_eq_ok_self fun q hq => vacate_eq_ok_iff.2 (.idle (h q (Reg.mem_cons_aliases.1 hq)))

/-- **An eviction is complete, local and idempotent.** When it succeeds, the registers that overlap
the evicted one are free, each dirty value is stored once behind the instruction that made it, and
nothing else has changed but the counts; an eviction of a register that overlaps no others changes
nothing any more. When it fails, it has got as far as one of these registers: those before it are
emptied, and no store has been added for a register that still holds a value. -/
theorem evict_complete (c : Context) (r : Reg) (s : State) :
    (∀ s', evict c r s = .ok () s' → Evicted c (r :: r.aliases) s s' ∧
      ∀ q, (∀ p, q.overlaps p = true → r.overlaps p = true) → evict c q s' = .ok () s') ∧
    ∀ e s', evict c r s = .error e s' → ∃ done q rest, r :: r.aliases = done ++ q :: rest ∧
      Evicted c done s s' ∧ Stuck c q s' e ∧ ∀ p x, s'.table.get? p = some x → p ∉ done := by
  constructor
  · intro s' h
    refine ⟨evicted_of_vacates (Reg.nodup_cons_aliases r) (evict_eq_forM ▸ h), fun q hq => ?_⟩
    exact evict_eq_ok_self fun p hp => (evict_empties h).get?_of_gone (hq p hp)
  · intro e s' h
    obtain ⟨done, q, rest, t, hsplit, hdone, hq⟩ := exists_of_forM_eq_error (evict_eq_forM ▸ h)
    obtain ⟨hstuck, asked, rfl⟩ := stuck_of_vacate hq
    have hnodup : done.Nodup :=
      (List.nodup_append.1 (hsplit ▸ Reg.nodup_cons_aliases r)).1
    have hevicted := (evicted_of_vacates hnodup hdone).with_asked asked
    have hsame : Emptied (fun _ => false) { t with asked := asked } t :=
      ⟨fun _ => rfl, rfl, rfl, fun _ => rfl⟩
    have hstuck := hstuck.of_emptied hsame
    refine ⟨done, q, rest, hsplit, hevicted, hstuck, fun p x hx hp => ?_⟩
    exact of_decide_eq_false (hevicted.resident hx).1 hp

end Residency
