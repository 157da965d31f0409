import Residency.Proofs.Ledger

/-!
# Which loads and stores there are, and where

Where a lowering puts loads and stores, and how many, can be said without the table of residents,
by the events alone (`Residency.Arranged`). Before an instruction stands one load of each value
with a slot that the instruction reads and that is not in place when it is first read
(`Residency.Wanted`). Behind it stands one store of each value that it writes and that is not
renewed by the events that follow: one that is displaced before it is written again, or is not
written again until the block ends. There are no others (`Residency.moves_exactly_where_needed`).

A load is where it is from the start, but a store joins the block late. So each instruction of the
lowered block has its account (`Residency.Account`), and the order of the code is read off the
accounts when the block is done.
-/

namespace Residency

open Step

variable {c : Context} {a : Allocation} {id : Site} {i j : Inst} {e : Event}
  {es done future : List Event} {l l' loads : List Inst} {entries : List Entry}
  {s s' t m : State} {r : Reg} {v : VReg} {n : Nat}

/-! ### What is to be loaded -/

/-- A value is wanted by one of some events, which follow others: it has a slot, and where it is
first read it is not in place. -/
def Wanted (a : Allocation) (es done : List Event) (v : VReg) : Prop :=
  (∃ slot, a.slot? v = .ok (some slot)) ∧
    ∃ pre post, done = pre ++ .read v :: post ∧ .read v ∉ pre ∧ ¬ InPlace a (es ++ pre) v

theorem not_wanted_nil : ¬ Wanted a es [] v := by
  rintro ⟨-, pre, post, h, -⟩
  simp at h

/-- **One event more**: a value is wanted by it if it reads the value for the first time and does
not find it in place. -/
theorem wanted_concat_iff :
    Wanted a es (done ++ [e]) v ↔ Wanted a es done v ∨
      (∃ slot, a.slot? v = .ok (some slot)) ∧ e = .read v ∧ .read v ∉ done ∧
        ¬ InPlace a (es ++ done) v := by
  constructor
  · rintro ⟨hslot, pre, post, h, hfirst, hin⟩
    rcases split_concat h with ⟨rfl, rfl, -⟩ | ⟨post', rfl, rfl⟩
    · exact Or.inr ⟨hslot, rfl, hfirst, hin⟩
    · exact Or.inl ⟨hslot, pre, post', rfl, hfirst, hin⟩
  · rintro (⟨hslot, pre, post, rfl, hfirst, hin⟩ | ⟨hslot, rfl, hfirst, hin⟩)
    · exact ⟨hslot, pre, post ++ [e], by simp, hfirst, hin⟩
    · exact ⟨hslot, done, [], rfl, hfirst, hin⟩

theorem Wanted.read_mem (h : Wanted a es done v) : .read v ∈ done := by
  obtain ⟨-, pre, post, rfl, -⟩ := h
  simp

/-! ### The arrangement of a block -/

/-- An instruction loads the value of a virtual register from its slot. -/
def Context.LoadOf (c : Context) (v : VReg) (j : Inst) : Prop :=
  ∃ r slot cls, c.alloc.reg? v = .ok (some r) ∧ c.alloc.slot? v = .ok (some slot) ∧
    c.func.classOf v = .ok cls ∧ c.target.load slot r cls = .ok j

/-- The instructions of a block from position `n` on, arranged with their loads and stores: the
events `es` come before them, and the events `future` behind them. -/
inductive Arranged (c : Context) (future : List Event) :
    List Event → Nat → List Inst → List Entry → Prop
  /-- Nothing. -/
  | nil {es : List Event} {n : Nat} : Arranged c future es n [] []
  /-- The loads of what an instruction wants, the instruction itself, the stores of what it writes
  and what is not renewed, and the instructions behind it. -/
  | cons {es : List Event} {n : Nat} {i : Inst} {l loads stores : List Inst}
      {entries : List Entry}
      (hloads : OneEach c.LoadOf
        (Wanted c.alloc es (Event.before c.alloc ⟨c.block, UInt32.ofNat n⟩ i)) loads)
      (hstores : OneEach c.StoreOf (fun v => i.Writes v ∧
        ¬ Renewed c.alloc (history c.alloc c.block (n + 1) l ++ future) v) stores)
      (hrest : Arranged c future (es ++ Event.ofInst c.alloc ⟨c.block, UInt32.ofNat n⟩ i) (n + 1)
        l entries) :
      Arranged c future es n (i :: l)
        (loads.map (fun j => ⟨j, []⟩) ++ ⟨i.mapRefs c.alloc.substitute, stores⟩ :: entries)

/-- The arrangement of a block, taken apart between two of its instructions. -/
theorem Arranged.split (h : Arranged c future es n (l ++ l') entries) :
    ∃ front back, entries = front ++ back ∧
      Arranged c (history c.alloc c.block (n + l.length) l' ++ future) es n l front ∧
      Arranged c future (es ++ history c.alloc c.block n l) (n + l.length) l' back := by
  induction l generalizing es n entries with
  | nil => exact ⟨[], entries, rfl, .nil, by simpa [history] using h⟩
  | cons i l ih =>
    have hlen : n + (i :: l).length = n + 1 + l.length := by
      rw [List.length_cons]
      omega
    cases h with
    | cons hloads hstores hrest =>
      obtain ⟨front, back, rfl, hfront, hback⟩ := ih hrest
      rw [hlen]
      refine ⟨_ ++ _ :: front, back, (List.append_assoc _ (_ :: front) back).symm,
        .cons hloads (hstores.congr fun v => ?_) hfront, ?_⟩
      · rw [List.append_eq, history_append, List.append_assoc]
      · rwa [history, ← List.append_assoc]

/-! ### The loads of an instruction -/

/-- An event before the place of an instruction brings a value with a slot from there, if it reads
one that is not in its register, and adds nothing to the block otherwise. -/
theorem Performed.fetches (he : e.Early) (hp : Performed c s e s') :
    (s'.code = s.code ∧ ∀ v slot, e = .read v → c.alloc.slot? v = .ok (some slot) →
      ∃ r, c.alloc.reg? v = .ok (some r) ∧ s.table.holds r v = true) ∨
    ∃ v r t slot cls j, e = .read v ∧ c.alloc.reg? v = .ok (some r) ∧
      s.table.holds r v = false ∧ evict c r s = .ok () t ∧
      c.alloc.slot? v = .ok (some slot) ∧ c.func.classOf v = .ok cls ∧
      c.target.load slot r cls = .ok j ∧
      s' = (((((t.request (.load v slot r)).log c.level (.loaded c.block v slot r)).push j).count
        .reloads).hold r ⟨v, false, t.out.size⟩).reserve r := by
  cases hp with
  | foldAway hr => exact Or.inl ⟨rfl, nofun⟩
  | foldAbsent hr hh => exact Or.inl ⟨rfl, nofun⟩
  | fold hr hh hev => exact Or.inl ⟨(code_of_evict hev).trans State.code_count, nofun⟩
  | readHeld hr hh =>
    refine Or.inl ⟨State.code_reserve, ?_⟩
    rintro v slot ⟨⟩ -
    exact ⟨_, hr, hh⟩
  | readLoaded hr hh hev hs hc hi =>
    exact Or.inr ⟨_, _, _, _, _, _, rfl, hr, hh, hev, hs, hc, hi, rfl⟩
  | readFound hr hh hev hs =>
    refine Or.inl ⟨by simp [code_of_evict hev], ?_⟩
    rintro v slot ⟨⟩ hslot
    cases hs.symm.trans hslot
  | modify hr hx => exact he.elim
  | redefine hr hh => exact he.elim
  | define hr hh hev => exact he.elim
  | overwrite hev => exact he.elim

/-- What is known before the place of an instruction of the loads for it: there is one of each value
wanted so far, and none of them owes a store. -/
structure Fetched (c : Context) (l : List Inst) (es : List Event) (code : List Inst)
    (done : List Event) (s : State) : Prop where
  /-- The table follows the events. -/
  upto : Upto c l es done s
  /-- The loads are there. -/
  loads : ∃ loads, s.code = code ++ loads ∧
    OneEach c.LoadOf (Wanted c.alloc es done) loads ∧
    ∀ k j, loads[k]? = some j → Account c (fun _ => False) (code.length + k) j done s

theorem State.length_code : s.code.length = s.out.size := by
  rw [State.code, List.length_map, Array.length_toList]

/-- A load that has just joined the block owes nothing. -/
theorem Tracked.idle_push (htr : Tracked c l [] s) :
    Ledger c s.out.size j (fun _ => False) (s.push j) := by
  refine ⟨⟨[], by simp [State.push], .nil fun v hv => hv.1⟩, ?_⟩
  rintro v ⟨r, -, hx⟩
  exact absurd (htr.older hx rfl).1 (Nat.lt_irrefl _)

theorem Fetched.perform {code : List Inst} (he : e.Early) (h : Fetched c l es code done s)
    (hp : Performed c s e s') : Fetched c l es code (done ++ [e]) s' := by
  refine ⟨h.upto.perform he hp, ?_⟩
  have htr := h.upto.tracked
  obtain ⟨loads, hcode, heach, hidle⟩ := h.loads
  have hkept : ∀ k j, loads[k]? = some j →
      Account c (fun _ => False) (code.length + k) j (done ++ [e]) s' := fun k j hj =>
    (hidle k j hj).perform htr (finds_of_early he) hp
  rcases hp.fetches he with
    ⟨hsame, hheld⟩ | ⟨v, r, t, slot, cls, j, rfl, hr, hh, hev, hs, hc, hi, rfl⟩
  · refine ⟨loads, hsame.trans hcode, heach.congr fun v => ?_, hkept⟩
    rw [wanted_concat_iff]
    refine (or_iff_left ?_).symm
    rintro ⟨⟨slot, hslot⟩, hread, -, hin⟩
    obtain ⟨r, hr, hh⟩ := hheld v slot hread hslot
    exact hin ((h.upto.follows v r hr).1 hh)
  · have hin : ¬ InPlace c.alloc (es ++ done) v := fun hin =>
      absurd (hh.symm.trans ((h.upto.follows v r hr).2 hin)) nofun
    have hfirst : .read v ∉ done := by
      intro hmem
      obtain ⟨q, hq, -, hheld⟩ := h.upto.reading.held hmem
      obtain rfl := Allocation.reg_unique hr hq
      exact absurd (hh.symm.trans hheld) nofun
    have hnew := heach.concat (fun hv => hfirst hv.read_mem) ⟨r, slot, cls, hr, hs, hc, hi⟩
    refine ⟨loads ++ [j], by simp [code_of_evict hev, hcode], hnew.congr fun u => ?_,
      fun k j' hj' => ?_⟩
    · rw [wanted_concat_iff]
      refine or_congr_right ⟨?_, fun hu => (Event.read.inj hu.2.1).symm⟩
      rintro rfl
      exact ⟨⟨slot, hs⟩, rfl, hfirst, hin⟩
    · rw [List.getElem?_append] at hj'
      split at hj'
      · exact hkept k j' hj'
      · -- The new load stands last, behind what was there and the loads before it.
        rename_i hk
        obtain ⟨hk', rfl⟩ : k - loads.length = 0 ∧ j = j' := by
          simpa [List.getElem?_singleton] using hj'
        have hlen : code.length + k = t.out.size := by
          rw [(evict_empties hev).size, ← State.length_code, hcode, List.length_append]
          omega
        have hpush := (htr.of_emptied (evict_empties hev)).idle_push (j := j)
        have hfree := get?_of_evict hev
        have hcount : Ledger c t.out.size j (fun _ => False)
            ((((t.request (.load v slot r)).log c.level (.loaded c.block v slot r)).push j).count
              .reloads) :=
          hpush.congr rfl rfl
        rw [hlen]
        exact .of_idle (hcount.arrive (x := ⟨v, false, t.out.size⟩) hr hfree nofun).reserve

theorem fetched_of_before (htr : Tracked c l [] s) (hres : s.reserved = []) (h : Follows c es s)
    (hm : ((Event.before c.alloc id i).forM (Event.perform c id)) s = .ok () m) :
    Fetched c l es s.code (Event.before c.alloc id i) m :=
  htr.builds (P := Fetched c l es s.code)
    ⟨.start htr hres h, [], (List.append_nil _).symm, .nil fun _ => not_wanted_nil, nofun⟩
    (List.append_nil _).symm hm fun _ _ _ _ he _ hfetched hp => hfetched.perform he hp

/-! ### An instruction joins the block -/

/-- Behind the place of an instruction, what is as old as the instruction is what it has written. -/
theorem owes_size_iff (htr : Tracked c l (Event.after i) t)
    (hchanged : Changed c m (Event.after i) t) :
    Owes c t t.out.size v ↔ i.Writes v := by
  constructor
  · rintro ⟨r, -, hx⟩
    rcases htr.written hx rfl with ⟨hlt, -⟩ | ⟨-, hw⟩
    · exact absurd hlt (Nat.lt_irrefl _)
    · exact Event.exists_mem_after_writes_iff.1 hw
  · intro hw
    obtain ⟨e, he, hw⟩ := Event.exists_mem_after_writes_iff.2 hw
    exact hchanged.kept he hw

/-- **What an instruction adds to the block**: the loads of what it wants, which owe nothing, and
itself, which owes everything that it writes. -/
theorem exists_loads_of_lowerInst (htr : Tracked c l [] s) (hres : s.reserved = [])
    (h : Follows c es s) (hs : lowerInst c id i s = .ok () s') :
    ∃ loads, OneEach c.LoadOf (Wanted c.alloc es (Event.before c.alloc id i)) loads ∧
      s'.out.size = s.out.size + loads.length + 1 ∧
      (∀ k j, loads[k]? = some j →
        Account c (fun _ => False) (s.out.size + k) j (Event.ofInst c.alloc id i) s') ∧
      Account c i.Writes (s.out.size + loads.length) (i.mapRefs c.alloc.substitute) [] s' := by
  obtain ⟨m, t, hm, ht, rfl⟩ := lowerInst_eq_ok_iff.1 hs
  obtain ⟨loads, hcode, heach, hidle⟩ := (fetched_of_before htr hres h hm).loads
  have hstart := Late.start (i := i) (htr.before hm) (reading_of_before hres hm)
  have hlate := late_of_append hstart (List.append_nil _).symm ht
  have hsize : t.out.size = s.out.size + loads.length := by
    have hlen := congrArg List.length ((code_of_after ht).trans (State.code_release.trans hcode))
    rwa [List.length_append, State.length_code, State.length_code] at hlen
  refine ⟨loads, heach, ?_, fun k j hj => ?_, ?_⟩
  · rw [State.size_push, hsize]
  · rw [← State.length_code]
    exact ((hidle k j hj).after hstart ht).push
  · rw [← hsize]
    exact .join fun v => owes_size_iff hlate.tracked (changed_of_after hstart ht)

/-! ### The whole block -/

/-- What stands in a list from a position on, taken apart behind the entries that are known. -/
theorem drop_eq_append (xs : List Entry) (h : ∀ k y, xs[k]? = some y → entries[n + k]? = some y) :
    entries.drop n = xs ++ entries.drop (n + xs.length) := by
  have hpre : xs <+: entries.drop n := by
    rw [List.prefix_iff_getElem?]
    intro k hk
    rw [List.getElem?_drop]
    exact h k _ (List.getElem?_eq_getElem hk)
  rw [← List.drop_drop]
  exact (List.prefix_iff_eq_append.1 hpre).symm

/-- **The instructions of a block are arranged** with their loads and stores, when everything that
follows them is done as well. -/
theorem arranged_of_lowerEach (htr : Tracked c l [] s) (hres : s.reserved = [])
    (h : Follows c es s) (hs : lowerEach c n l' s = .ok () t) (hflush : flush c t = .ok () s') :
    Arranged c [] es n l' (s'.out.toList.drop s.out.size) := by
  induction l' generalizing l es n s with
  | nil =>
    obtain rfl := lowerEach_nil_eq_ok_iff.1 hs
    rw [← (flush_empties hflush).size, List.drop_of_length_le (Nat.le_of_eq Array.length_toList)]
    exact .nil
  | cons i l' ih =>
    obtain ⟨w, u, hw, hi, hrest⟩ := lowerEach_cons_eq_ok_iff.1 hs
    obtain rfl := eq_ofNat_of_word hw
    obtain ⟨htr', hres'⟩ := htr.next hres hi
    obtain ⟨loads, heach, hsize, hidle, hown⟩ := exists_loads_of_lowerInst htr hres h hi
    -- The accounts are settled at the end of the block, and show what stands behind each entry.
    have hrel : ∀ k j, loads[k]? = some j → s'.out[s.out.size + k]? = some ⟨j, []⟩ := by
      intro k j hj
      obtain ⟨js, hentry, hjs⟩ := (hidle k j hj).settled htr' hres' hrest hflush
      rwa [hjs.eq_nil fun v => And.left] at hentry
    obtain ⟨stores, hentry, hstores⟩ := hown.settled htr' hres' hrest hflush
    have hdrop : s'.out.toList.drop s.out.size = loads.map (fun j => ⟨j, []⟩) ++
        ⟨i.mapRefs c.alloc.substitute, stores⟩ :: s'.out.toList.drop u.out.size := by
      rw [drop_eq_append (loads.map fun j => ⟨j, []⟩) fun k y hy => ?_, List.length_map, hsize,
        List.drop_eq_getElem?_toList_append, Array.getElem?_toList, hentry]
      · rfl
      · obtain ⟨j, hj, rfl⟩ := Option.map_eq_some_iff.1 (List.getElem?_map.symm.trans hy)
        rw [Array.getElem?_toList]
        exact hrel k j hj
    rw [hdrop]
    refine .cons heach (hstores.congr fun v => ?_) (ih htr' hres' (h.next htr hres hi) hrest)
    rw [List.nil_append, List.append_nil]

/-- **A lowered block has the loads and stores that its events call for**, each where it belongs,
and no others: before an instruction one load of each value that it wants, and behind it one store
of each value that it writes and that is not renewed before it is displaced or the block ends. -/
theorem moves_exactly_where_needed {b : Block} {x : List Inst × Stats}
    (hb : c.func.block c.block = .ok b) (hx : (lowerBlock c).result = .ok x) :
    ∃ entries, x.1 = Entry.flatten entries ∧ Arranged c [] [] 0 b.insts entries := by
  obtain ⟨b', t, s', hb', hlower, hflush, rfl⟩ := lowerBlock_eq_ok_iff.1 hx
  obtain rfl := Except.ok.inj (hb.symm.trans hb')
  have heach := (lowerInsts_eq_ok_iff.1 hlower).2
  exact ⟨s'.out.toList, rfl, arranged_of_lowerEach .start rfl .start heach hflush⟩

/-! ### Two values in one register -/

/-- Two virtual registers with one register between them. -/
def sharedHomes : Allocation where
  placements := #[⟨some .rax, some ⟨0⟩⟩, ⟨some .rax, some ⟨1⟩⟩]

/-- Instructions that set both values and then change the first. -/
def sharedInsts : List Inst :=
  [⟨"mov", [.reg (.virtual ⟨0⟩) .write, .imm 1], [], false⟩,
    ⟨"mov", [.reg (.virtual ⟨1⟩) .write, .imm 2], [], false⟩,
    ⟨"inc", [.reg (.virtual ⟨0⟩) .modify], [], false⟩,
    ⟨"neg", [.reg (.virtual ⟨0⟩) .modify], [], false⟩]

/-- What their block is lowered with. -/
def sharedContext : Context :=
  ⟨⟨"shared", #[.gpr64, .gpr64], #[⟨sharedInsts⟩]⟩, sharedHomes, .x64, .regEvent, ⟨0⟩⟩

/-- Their lowered block: each value is stored when the other one comes, and the first one, when it
is changed twice, only behind the second change. -/
def sharedCode : List Inst :=
  [⟨"mov", [.reg (.physical .rax) .write, .imm 1], [], false⟩, .store "mov" ⟨0⟩ .rax,
    ⟨"mov", [.reg (.physical .rax) .write, .imm 2], [], false⟩, .store "mov" ⟨1⟩ .rax,
    .load "mov" .rax ⟨0⟩, ⟨"inc", [.reg (.physical .rax) .modify], [], false⟩,
    ⟨"neg", [.reg (.physical .rax) .modify], [], false⟩, .store "mov" ⟨0⟩ .rax]

/-- The block is arranged. -/
theorem moves_exactly_where_needed_shared :
    ∃ x entries, (lowerBlock sharedContext).result = .ok x ∧ x.1 = sharedCode ∧
      x.1 = Entry.flatten entries ∧ Arranged sharedContext [] [] 0 sharedInsts entries := by
  have hx : ∃ x, (lowerBlock sharedContext).result = .ok x ∧ x.1 = sharedCode := ⟨_, rfl, rfl⟩
  obtain ⟨x, hx, hcode⟩ := hx
  have hb : sharedContext.func.block sharedContext.block = .ok ⟨sharedInsts⟩ := rfl
  obtain ⟨entries, hflatten, harranged⟩ := moves_exactly_where_needed hb hx
  exact ⟨x, entries, hx, hcode, hflatten, harranged⟩

end Residency
