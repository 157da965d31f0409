import Mathlib.Algebra.GroupWithZero.Nat
import Mathlib.Data.List.Nodup
import Residency.Lowering.Func
import Residency.Proofs.Pairwise
import Residency.Proofs.Pool
import Residency.Proofs.Trustworthy

/-!
# Every schedule leads to the same function

Several workers lower the blocks of a function in an order that is not determined. What comes
of it does not depend on the order (`Residency.every_schedule_agrees`). If every block can be
lowered, then all of them are, each once, and the function and its statistics are what they
are when the blocks are lowered one after the other (`Residency.EndsWell`). If some block
cannot be lowered, then the function stays as it was, and the failure is one of a block that
a worker has lowered; which one that is depends on the schedule, and it is a fault exactly
when a worker broke down (`Residency.EndsBadly`).

The schedule in which one worker after the other goes on until it stops is one of them
(`Residency.Pool.stopped_oneByOne`), so a function is lowered as its blocks one after the other
would be (`Residency.lowerFunc_eq_ok`).
-/

namespace Residency

open Step

/-! ### The blocks of a function -/

/-- The blocks of a function are numbered in order. -/
theorem Func.index_of_blockIds {f : Func} {blocks : List BlockId} (h : f.blockIds = .ok blocks) :
    blocks.length = f.blocks.size ∧
      ∀ (k : Nat) (b : BlockId), blocks[k]? = some b → b.index = k := by
  obtain ⟨hlen, hget⟩ := List.forall₂_iff_get.1 (mapM_eq_ok_iff.1 h)
  rw [List.length_range] at hlen
  refine ⟨hlen.symm, fun k b hb => ?_⟩
  obtain ⟨hk, rfl⟩ := List.getElem?_eq_some_iff.1 hb
  have hword : (word k).map BlockId.mk = .ok blocks[k] := by
    simpa using hget k (by simpa [hlen] using hk) hk
  obtain ⟨w, hw, hb⟩ := map_eq_ok_iff.1 hword
  rw [← hb]
  exact toNat_of_word hw

/-- The blocks of a function have numbers if there are not too many of them. -/
theorem Func.exists_blockIds {f : Func} (h : f.blocks.size ≤ 2 ^ 32) :
    ∃ blocks, f.blockIds = .ok blocks := by
  have hword : ∀ n ∈ List.range f.blocks.size, ∃ b, (word n).map BlockId.mk = .ok b := by
    intro n hn
    obtain ⟨w, hw⟩ := exists_word (Nat.lt_of_lt_of_le (List.mem_range.1 hn) h)
    exact ⟨⟨w⟩, map_eq_ok_iff.2 ⟨w, hw, rfl⟩⟩
  obtain ⟨blocks, hblocks⟩ := exists_forall₂ hword
  exact ⟨blocks, mapM_eq_ok_iff.2 hblocks⟩

/-- The blocks of a function, looked up by their numbers. -/
theorem Func.forall₂_blockIds {f : Func} {blocks : List BlockId} (h : f.blockIds = .ok blocks) :
    List.Forall₂ (fun id b => f.block id = .ok b) blocks f.blocks.toList := by
  obtain ⟨hlen, hindex⟩ := Func.index_of_blockIds h
  refine List.forall₂_iff_get.2 ⟨by simpa using hlen, fun k hk hk' => ?_⟩
  rw [Func.block, entry_eq_ok_iff, List.get_eq_getElem,
    hindex k _ (List.getElem?_eq_getElem hk)]
  simp

theorem Func.nodup_blockIds {f : Func} {blocks : List BlockId} (h : f.blockIds = .ok blocks) :
    blocks.Nodup := by
  have hmap : blocks.map BlockId.index = List.range blocks.length := by
    refine List.ext_getElem (by simp) fun k hk hk' => ?_
    rw [List.getElem_map, List.getElem_range]
    exact (Func.index_of_blockIds h).2 k _ (List.getElem?_eq_getElem _)
  exact List.Nodup.of_map BlockId.index (hmap ▸ List.nodup_range)

/-! ### One after the other -/

theorem runSerial_eq_ok_iff {α : Type} {run : BlockId → Outcome α} {blocks : List BlockId}
    {xs : List α} : (runSerial run blocks).result = .ok xs ↔
      List.Forall₂ (fun b x => (run b).result = .ok x) blocks xs := by
  induction blocks generalizing xs with
  | nil =>
    rw [List.forall₂_nil_left_iff]
    exact ⟨fun h => (Except.ok.inj h).symm, fun h => congrArg Except.ok h.symm⟩
  | cons b blocks ih =>
    rw [List.forall₂_cons_left_iff, runSerial]
    cases hb : (run b).result with
    | error e =>
      refine iff_of_false nofun ?_
      rintro ⟨x, l, hx, -⟩
      cases hx
    | ok x =>
      dsimp only
      cases hrest : (runSerial run blocks).result with
      | error e =>
        refine iff_of_false nofun ?_
        rintro ⟨x, l, -, hl, -⟩
        cases hrest.symm.trans (ih.2 hl)
      | ok l =>
        constructor
        · intro h
          cases h
          exact ⟨x, l, rfl, ih.1 hrest, rfl⟩
        · rintro ⟨y, l', hy, hl, rfl⟩
          cases hy
          cases hrest.symm.trans (ih.2 hl)
          rfl

/-- Where blocks fail one after the other, one of them fails. -/
theorem exists_of_runSerial_eq_error {α : Type} {run : BlockId → Outcome α} {blocks : List BlockId}
    {e : Failure} (h : (runSerial run blocks).result = .error e) :
    ∃ b ∈ blocks, (run b).result = .error e := by
  induction blocks with
  | nil => cases h
  | cons b blocks ih =>
    rw [runSerial] at h
    cases hb : (run b).result with
    | error e' =>
      rw [hb] at h
      cases h
      exact ⟨b, List.mem_cons_self, hb⟩
    | ok x =>
      rw [hb] at h
      dsimp only at h
      cases hrest : (runSerial run blocks).result with
      | error e' =>
        rw [hrest] at h
        cases h
        obtain ⟨b', hb', he⟩ := ih hrest
        exact ⟨b', List.mem_cons_of_mem b hb', he⟩
      | ok l =>
        rw [hrest] at h
        cases h

/-! ### One worker after the other -/

namespace Pool

variable {α : Type} {run : BlockId → Outcome α} {p q : Pool α} {w : Nat}

theorem runSchedule_append {l l' : List Nat} :
    p.runSchedule run (l ++ l') = (p.runSchedule run l).runSchedule run l' :=
  List.foldl_append

/-- A step of a worker concerns no other one, and puts no block into the queue. -/
theorem step_frame (run : BlockId → Outcome α) (p : Pool α) (w : Nat) :
    (p.step run w).workers.size = p.workers.size ∧
    (p.step run w).queue.length ≤ p.queue.length ∧
    ∀ v, v ≠ w → (p.step run w).workers[v]? = p.workers[v]? := by
  have hturn : ∀ (p : Pool α) x, (p.turn w x).workers.size = p.workers.size ∧
      ∀ v, v ≠ w → (p.turn w x).workers[v]? = p.workers[v]? := by
    intro p x
    refine ⟨Array.size_setIfInBounds, fun v hv => ?_⟩
    exact Array.getElem?_setIfInBounds_ne hv.symm
  unfold step
  split
  · split
    · rename_i hq
      exact ⟨(hturn p _).1, Nat.le_refl _, (hturn p _).2⟩
    · rename_i b rest hq
      refine ⟨(hturn p _).1, ?_, (hturn p _).2⟩
      rw [hq]
      exact Nat.le_succ _
  · unfold finish
    dsimp only
    split
    · exact ⟨(hturn _ _).1, Nat.le_refl _, (hturn _ _).2⟩
    · exact ⟨(hturn _ _).1, Nat.zero_le _, (hturn _ _).2⟩
    · exact ⟨(hturn _ _).1, Nat.le_refl _, (hturn _ _).2⟩
  · exact ⟨rfl, Nat.le_refl _, fun _ _ => rfl⟩

/-- A worker that has stopped makes no more steps. -/
theorem step_of_stopped {x : Worker} (hx : p.workers[w]? = some x) (hs : x.stopped = true) :
    p.step run w = p := by
  unfold step
  rw [hx]
  cases x <;> first | rfl | cases hs

/-- Along the steps of one worker, the others stay where they are. -/
theorem runSchedule_replicate_frame (run : BlockId → Outcome α) (p : Pool α) (w n : Nat) :
    (p.runSchedule run (List.replicate n w)).workers.size = p.workers.size ∧
    (p.runSchedule run (List.replicate n w)).queue.length ≤ p.queue.length ∧
    ∀ v, v ≠ w → (p.runSchedule run (List.replicate n w)).workers[v]? = p.workers[v]? := by
  induction n generalizing p with
  | zero => exact ⟨rfl, Nat.le_refl _, fun _ _ => rfl⟩
  | succ n ih =>
    obtain ⟨hsize, hqueue, hworkers⟩ := ih (p := p.step run w)
    obtain ⟨hsize', hqueue', hworkers'⟩ := step_frame run p w
    exact ⟨hsize.trans hsize', Nat.le_trans hqueue hqueue', fun v hv =>
      (hworkers v hv).trans (hworkers' v hv)⟩

theorem runSchedule_of_stopped {x : Worker} {n : Nat} (hx : p.workers[w]? = some x)
    (hs : x.stopped = true) : p.runSchedule run (List.replicate n w) = p := by
  induction n with
  | zero => rfl
  | succ n ih =>
    have hcons : p.runSchedule run (List.replicate (n + 1) w) =
        (p.step run w).runSchedule run (List.replicate n w) := rfl
    rw [hcons, step_of_stopped hx hs, ih]

theorem getElem?_turn {x y : Worker} (hx : p.workers[w]? = some x) :
    (p.turn w y).workers[w]? = some y := by
  obtain ⟨hw, -⟩ := Array.getElem?_eq_some_iff.1 hx
  exact Array.getElem?_setIfInBounds_self_of_lt hw

/-- A worker that ends with its block has stopped, or it is idle again and the queue is what
it was. -/
theorem finish_cases {x : Worker} {b : BlockId} {o : Outcome α} (hx : p.workers[w]? = some x) :
    (∃ y, (p.finish w b o).workers[w]? = some y ∧ y.stopped = true) ∨
      (p.finish w b o).workers[w]? = some .idle ∧ (p.finish w b o).queue = p.queue := by
  have hx' : ({ p with trace := p.trace ++ o.trace } : Pool α).workers[w]? = some x := hx
  unfold finish
  dsimp only
  split
  · exact Or.inr ⟨getElem?_turn hx', rfl⟩
  · exact Or.inl ⟨_, getElem?_turn hx', rfl⟩
  · exact Or.inl ⟨_, getElem?_turn hx', rfl⟩

/-- **A worker stops when it goes on for long enough**: two steps for each block in the queue,
and one to find it empty. -/
theorem stops_of_replicate {n : Nat} (hw : p.workers[w]? = some .idle)
    (hn : 2 * p.queue.length < n) :
    ∃ x, (p.runSchedule run (List.replicate n w)).workers[w]? = some x ∧ x.stopped = true := by
  induction hq : p.queue generalizing p n with
  | nil =>
    obtain ⟨m, rfl⟩ : ∃ m, n = m + 1 := ⟨n - 1, by omega⟩
    have hstep : p.step run w = p.turn w .finished := by
      unfold step
      rw [hw, hq]
    have hfin : (p.step run w).workers[w]? = some .finished := hstep ▸ getElem?_turn hw
    have hrest : p.runSchedule run (List.replicate (m + 1) w) = p.step run w :=
      runSchedule_of_stopped hfin rfl
    exact ⟨.finished, hrest ▸ hfin, rfl⟩
  | cons b rest ih =>
    rw [hq, List.length_cons] at hn
    -- One step takes the block, and the next one ends with it.
    obtain ⟨m, rfl⟩ : ∃ m, n = m + 2 := ⟨n - 2, by omega⟩
    have htake : p.step run w = { p.turn w (.busy b) with queue := rest } := by
      unfold step
      rw [hw, hq]
    have hbusy : (p.step run w).workers[w]? = some (.busy b) := htake ▸ getElem?_turn hw
    have hfinish : (p.step run w).step run w = (p.step run w).finish w b (run b) := by
      rw [step, hbusy]
    have hrun : p.runSchedule run (List.replicate (m + 2) w) =
        ((p.step run w).finish w b (run b)).runSchedule run (List.replicate m w) :=
      congrArg (fun q => q.runSchedule run (List.replicate m w)) hfinish
    rw [hrun]
    rcases finish_cases (b := b) (o := run b) hbusy with ⟨y, hy, hstop⟩ | ⟨hidle, hqueue⟩
    · refine ⟨y, ?_, hstop⟩
      rw [runSchedule_of_stopped hy hstop, hy]
    · have hrest : ((p.step run w).finish w b (run b)).queue = rest := by
        rw [hqueue, htake]
      exact ih hidle (by rw [hrest]; omega) hrest

/-- **The schedule that goes worker by worker stops all of them.** -/
theorem stopped_oneByOne {jobs : Nat} {blocks : List BlockId} :
    ((Pool.start jobs blocks : Pool α).runSchedule run
      (oneByOne jobs blocks.length)).stopped = true := by
  -- When the first `k` workers have had their turn, they have stopped and the others are idle.
  suffices hturns : ∀ k ≤ jobs, ∀ p : Pool α,
      p = (Pool.start jobs blocks).runSchedule run (oneByOne k blocks.length) →
      p.workers.size = jobs ∧ p.queue.length ≤ blocks.length ∧
        (∀ w < k, ∃ x, p.workers[w]? = some x ∧ x.stopped = true) ∧
        ∀ w, k ≤ w → w < jobs → p.workers[w]? = some .idle by
    obtain ⟨hsize, -, hstopped, -⟩ := hturns jobs (Nat.le_refl _) _ rfl
    rw [stopped, Array.all_eq_true]
    intro w hw
    obtain ⟨x, hx, hs⟩ := hstopped w (hsize ▸ hw)
    rw [Array.getElem?_eq_getElem hw] at hx
    rw [Option.some.inj hx, hs]
  intro k
  induction k with
  | zero =>
    rintro - p rfl
    refine ⟨by simp [Pool.start, oneByOne, runSchedule], Nat.le_refl _,
      fun w hw => absurd hw (Nat.not_lt_zero w), fun w _ hw => ?_⟩
    simp [Pool.start, oneByOne, runSchedule, hw]
  | succ k ih =>
    rintro hk p rfl
    obtain ⟨hsize, hqueue, hstopped, hidle⟩ := ih (Nat.le_of_succ_le hk) _ rfl
    have hsplit : oneByOne (k + 1) blocks.length =
        oneByOne k blocks.length ++ List.replicate (2 * blocks.length + 1) k := by
      simp [oneByOne, List.range_succ]
    rw [hsplit, runSchedule_append]
    obtain ⟨hsize', hqueue', hframe⟩ := runSchedule_replicate_frame run
      ((Pool.start jobs blocks).runSchedule run (oneByOne k blocks.length)) k
      (2 * blocks.length + 1)
    refine ⟨hsize'.trans hsize, Nat.le_trans hqueue' hqueue, fun w hw => ?_, fun w hw hj => ?_⟩
    · rcases Nat.lt_succ_iff_lt_or_eq.1 hw with hw | rfl
      · rw [hframe w (Nat.ne_of_lt hw)]
        exact hstopped w hw
      · exact stops_of_replicate (hidle w (Nat.le_refl _) hk) (by omega)
    · rw [hframe w (Nat.ne_of_gt hw)]
      exact hidle w (Nat.le_of_succ_le hw) hj

end Pool

/-! ### Every block counts once -/

/-- The sum of a list has the sum of each counter. -/
theorem Stats.get_sum (l : List Stats) (c : Counter) :
    (sum l).get c = (l.map fun s => s.get c).sum := by
  suffices hfold : ∀ t, (l.foldl add t).get c = t.get c + (l.map fun s => s.get c).sum by
    have hzero : ({} : Stats).get c = 0 := by cases c <;> rfl
    rw [sum, hfold, hzero, Nat.zero_add]
  induction l with
  | nil => exact fun t => rfl
  | cons s l ih =>
    intro t
    rw [List.foldl_cons, ih, get_add, List.map_cons, List.sum_cons, Nat.add_assoc]

section Blocks

variable {c : Context} {id : Site} {e : Event} {r : Reg} {s s' : State}

theorem Vacated.blocks (h : Vacated c r s s') : s'.stats.blocks = s.stats.blocks := by
  cases h <;> rfl

theorem blocks_of_evict (h : evict c r s = .ok () s') : s'.stats.blocks = s.stats.blocks :=
  evict_keeps (P := fun t => t.stats.blocks = s.stats.blocks)
    (fun _ _ _ ht hv => hv.blocks.trans ht) rfl h

theorem State.stats_reserve : (s.reserve r).stats = s.stats := by
  unfold State.reserve
  split <;> rfl

theorem Performed.blocks (h : Performed c s e s') : s'.stats.blocks = s.stats.blocks := by
  cases h with
  | foldAway hr => rfl
  | foldAbsent hr hh => rfl
  | fold hr hh he =>
    have hcount := blocks_of_evict he
    exact hcount
  | readHeld hr hh => rw [State.stats_reserve]
  | readLoaded hr hh he hs hc hi =>
    have hcount := blocks_of_evict he
    rw [State.stats_reserve]
    exact hcount
  | readFound hr hh he hs =>
    have hcount := blocks_of_evict he
    rw [State.stats_reserve]
    exact hcount
  | modify hr hx => rfl
  | redefine hr hh => rfl
  | define hr hh he =>
    have hcount := blocks_of_evict he
    exact hcount
  | overwrite he => exact blocks_of_evict he

theorem blocks_of_performs {l : List Event} (h : (l.forM (Event.perform c id)) s = .ok () s') :
    s'.stats.blocks = s.stats.blocks :=
  forM_keeps (P := fun t => t.stats.blocks = s.stats.blocks)
    (fun _ _ _ _ ht hp => (perform_eq_ok_iff.1 hp).blocks.trans ht) rfl h

theorem blocks_of_lowerEach {n : Nat} {l : List Inst} (h : lowerEach c n l s = .ok () s') :
    s'.stats.blocks = s.stats.blocks := by
  induction l generalizing n s with
  | nil => rw [lowerEach_nil_eq_ok_iff.1 h]
  | cons i l ih =>
    obtain ⟨w, t, -, hi, hrest⟩ := lowerEach_cons_eq_ok_iff.1 h
    obtain ⟨m, u, hm, hu, rfl⟩ := lowerInst_eq_ok_iff.1 hi
    have hafter := blocks_of_performs hu
    have hlater := ih hrest
    calc s'.stats.blocks = u.stats.blocks := hlater
      _ = m.stats.blocks := hafter
      _ = s.stats.blocks := blocks_of_performs hm

/-- A block counts as one block. -/
theorem blocks_of_lowerBlock {x : List Inst × Stats} (h : (lowerBlock c).result = .ok x) :
    x.2.blocks = 1 := by
  obtain ⟨b, t, t', -, hinsts, hflush, rfl⟩ := lowerBlock_eq_ok_iff.1 h
  have hflush' : t'.stats.blocks = t.stats.blocks :=
    flush_keeps (P := fun u => u.stats.blocks = t.stats.blocks)
      (fun _ _ _ ht hv => hv.blocks.trans ht) rfl hflush
  have hzero : t'.stats.blocks = 0 :=
    hflush'.trans (blocks_of_lowerEach (lowerInsts_eq_ok_iff.1 hinsts).2)
  change t'.stats.blocks + 1 = 1
  rw [hzero]

end Blocks

/-! ### What becomes of the function -/

section Settle

variable {f : Func} {a : Allocation} {target : Target} {c : Settings} {blocks done : List BlockId}
  {o : Outcome (List (List Inst × Stats))}

theorem settle_eq_commit {xs : List (List Inst × Stats)} (h : o.result = .ok xs) :
    settle f a c o = commit f a c xs o.trace := by
  unfold settle
  rw [h]

/-- A failure is passed on, and leaves the function as it was. -/
theorem settle_of_error {e : Failure} (h : o.result = .error e) :
    (settle f a c o).result = .error e ∧ (settle f a c o).func = f := by
  unfold settle
  rw [h]
  cases e <;> exact ⟨rfl, rfl⟩

theorem commit_func {xs : List (List Inst × Stats)} {trace : Array Message} :
    (commit f a c xs trace).func = f.withInsts (xs.map Prod.fst) := by
  unfold commit
  dsimp only
  split <;> rfl

/-- What comes of the function does not depend on the messages logged. -/
theorem commit_congr {xs : List (List Inst × Stats)} {trace trace' : Array Message} :
    (commit f a c xs trace).result = (commit f a c xs trace').result := by
  unfold commit
  dsimp only
  split <;> rfl

/-- **The work on the blocks of a function ends well**: as it does when they are lowered one
after the other. -/
structure EndsWell (f : Func) (a : Allocation) (target : Target) (c : Settings)
    (blocks done : List BlockId) (o : Outcome (List (List Inst × Stats))) : Prop where
  /-- Each block has been lowered once, and nothing else has. -/
  once : ∀ b, done.count b = if b ∈ blocks then 1 else 0
  /-- What came of the blocks is what comes of them one after the other. -/
  serial : o.result = (runSerial (lowerNth f a target c) blocks).result
  /-- So the result is the same. -/
  result : (settle f a c o).result =
    (settle f a c (runSerial (lowerNth f a target c) blocks)).result
  /-- And so is the function. -/
  func : (settle f a c o).func = (settle f a c (runSerial (lowerNth f a target c) blocks)).func
  /-- The lowered blocks take the places of the blocks, in order, and the statistics are the
  sums of theirs. -/
  commits : ∃ xs : List (List Inst × Stats),
    List.Forall₂ (fun b x => (lowerNth f a target c b).result = .ok x) blocks xs ∧
    settle f a c o = commit f a c xs o.trace ∧
    (settle f a c o).func = f.withInsts (xs.map Prod.fst) ∧
    (∀ k, (Stats.sum (xs.map Prod.snd)).get k = (xs.map fun x => x.2.get k).sum) ∧
    (Stats.sum (xs.map Prod.snd)).blocks = f.blocks.size

/-- **The work on the blocks of a function ends badly**: with a failure of a block that was
lowered. -/
structure EndsBadly (f : Func) (a : Allocation) (target : Target) (c : Settings)
    (blocks done : List BlockId) (o : Outcome (List (List Inst × Stats))) : Prop where
  /-- Only blocks of the function have been lowered. -/
  subset : ∀ b ∈ done, b ∈ blocks
  /-- The function is as it was. -/
  func : (settle f a c o).func = f
  /-- The failure is one of a block, and a fault exactly when there was a fault. -/
  fails : ∃ e, (settle f a c o).result = .error e ∧
    (∃ b ∈ done, (lowerNth f a target c b).result = .error e) ∧
    ((∃ g, e = .fault g) ↔ ∃ b ∈ done, ∃ g, (lowerNth f a target c b).result = .error (.fault g))

theorem endsWell_of_sound {p : Pool (List Inst × Stats)} (hblocks : f.blockIds = .ok blocks)
    (h : p.Sound (lowerNth f a target c) blocks done) (hp : p.stopped = true)
    (hok : ∀ b ∈ blocks, ∃ x, (lowerNth f a target c b).result = .ok x) :
    EndsWell f a target c blocks done p.join := by
  obtain ⟨hlen, hindex⟩ := Func.index_of_blockIds hblocks
  obtain ⟨xs, hxs⟩ := exists_forall₂ hok
  obtain ⟨hfail, hjoin⟩ := h.join_eq_ok hp hindex hxs
  have hserial := runSerial_eq_ok_iff.2 hxs
  refine ⟨fun b => ?_, hjoin.trans hserial.symm, ?_, ?_, xs, hxs, settle_eq_commit hjoin, ?_,
    fun k => ?_, ?_⟩
  · rw [(h.done_perm hp hfail).count_eq]
    split
    · rename_i hb
      exact List.count_eq_one_of_mem (Func.nodup_blockIds hblocks) hb
    · rename_i hb
      exact List.count_eq_zero.2 hb
  · rw [settle_eq_commit hjoin, settle_eq_commit hserial]
    exact commit_congr
  · rw [settle_eq_commit hjoin, settle_eq_commit hserial, commit_func, commit_func]
  · rw [settle_eq_commit hjoin, commit_func]
  · rw [Stats.get_sum, List.map_map]
    rfl
  · have hcount : xs.map (fun x => x.2.get .blocks) = List.replicate xs.length 1 := by
      rw [List.map_eq_replicate_iff]
      intro x hx
      obtain ⟨k, hk, rfl⟩ := List.getElem_of_mem hx
      rw [List.forall₂_iff_get] at hxs
      exact blocks_of_lowerBlock (hxs.2 k (hxs.1 ▸ hk) hk)
    have hsum := Stats.get_sum (xs.map Prod.snd) .blocks
    rw [List.map_map] at hsum
    refine hsum.trans ((congrArg List.sum hcount).trans ?_)
    rw [List.sum_replicate_nat, Nat.mul_one, ← hxs.length_eq, hlen]

theorem endsBadly_of_sound {p : Pool (List Inst × Stats)}
    (h : p.Sound (lowerNth f a target c) blocks done) (hp : p.stopped = true)
    {b : BlockId} {e : Failure} (hb : b ∈ blocks)
    (he : (lowerNth f a target c b).result = .error e) :
    EndsBadly f a target c blocks done p.join := by
  obtain ⟨e', he', hjoin, hfault⟩ := Pool.join_of_failures (h.failures_ne_nil hp hb he)
  refine ⟨fun b hb => h.mem_of_done (List.mem_append_left _ hb), (settle_of_error hjoin).2,
    e', (settle_of_error hjoin).1, (h.mem_failures_iff e').1 he', hfault.trans ?_⟩
  constructor
  · rintro ⟨g, hg⟩
    obtain ⟨b', hb', hg⟩ := (h.mem_failures_iff _).1 hg
    exact ⟨b', hb', g, hg⟩
  · rintro ⟨b', hb', g, hg⟩
    exact ⟨g, (h.mem_failures_iff _).2 ⟨b', hb', hg⟩⟩

/-- What is known of the workers of a function after any schedule. -/
theorem sound_of_schedule (hblocks : f.blockIds = .ok blocks) (hjobs : 1 < c.workers f)
    (a : Allocation) (target : Target) (schedule : List Nat) :
    ((Pool.start (c.workers f) blocks).runSchedule (lowerNth f a target c) schedule).Sound
      (lowerNth f a target c) blocks
      (Pool.ended (lowerNth f a target c) (Pool.start (c.workers f) blocks) schedule) := by
  have hindex : ∀ b ∈ blocks, b.index < blocks.length := by
    intro b hb
    obtain ⟨k, hk, rfl⟩ := List.getElem_of_mem hb
    rw [(Func.index_of_blockIds hblocks).2 k _ (List.getElem?_eq_getElem hk)]
    exact hk
  have hstart : (Pool.start (c.workers f) blocks).Sound (lowerNth f a target c) blocks [] :=
    .start (Nat.lt_of_succ_lt hjobs)
  exact hstart.runSchedule hindex

theorem exists_of_settle {stats : Stats} (h : (settle f a c o).result = .ok stats) :
    ∃ xs, o.result = .ok xs := by
  cases ho : o.result with
  | ok xs => exact ⟨xs, rfl⟩
  | error e =>
    rw [(settle_of_error ho).1] at h
    cases h

/-- **All blocks of a function are lowered** exactly when each of them is, by however many
workers. -/
theorem lowerBlocks_eq_ok_iff {xs : List (List Inst × Stats)} (hblocks : f.blockIds = .ok blocks) :
    (lowerBlocks f a target c).result = .ok xs ↔
      List.Forall₂ (fun b x => (lowerNth f a target c b).result = .ok x) blocks xs := by
  unfold lowerBlocks
  simp only [hblocks]
  by_cases hjobs : 1 < c.workers f
  · rw [if_pos hjobs]
    have hsound := sound_of_schedule hblocks hjobs a target
      (Pool.oneByOne (c.workers f) blocks.length)
    by_cases hok : ∀ b ∈ blocks, ∃ x, (lowerNth f a target c b).result = .ok x
    · rw [← runSerial_eq_ok_iff,
        ← (endsWell_of_sound hblocks hsound Pool.stopped_oneByOne hok).serial]
      rfl
    · push Not at hok
      obtain ⟨b, hb, hne⟩ := hok
      obtain ⟨e, he⟩ : ∃ e, (lowerNth f a target c b).result = .error e := by
        cases hr : (lowerNth f a target c b).result with
        | ok x => exact absurd hr (hne x)
        | error e => exact ⟨e, rfl⟩
      obtain ⟨e', -, hjoin, -⟩ :=
        Pool.join_of_failures (hsound.failures_ne_nil Pool.stopped_oneByOne hb he)
      refine iff_of_false (fun h => ?_) fun h => ?_
      · cases h.symm.trans hjoin
      · obtain ⟨k, hk, rfl⟩ := List.getElem_of_mem hb
        obtain ⟨hlen, hget⟩ := List.forall₂_iff_get.1 h
        exact hne _ (hget k hk (hlen ▸ hk))
  · rw [if_neg hjobs]
    exact runSerial_eq_ok_iff

/-- **A function whose blocks can be lowered is committed**, with what the blocks have become. -/
theorem lowerFunc_eq_commit {xs : List (List Inst × Stats)} (hblocks : f.blockIds = .ok blocks)
    (hxs : List.Forall₂ (fun b x => (lowerNth f a target c b).result = .ok x) blocks xs) :
    lowerFunc f a target c = commit f a c xs (lowerBlocks f a target c).trace :=
  settle_eq_commit ((lowerBlocks_eq_ok_iff hblocks).2 hxs)

/-- A single worker lowers the blocks of a function one after the other. -/
theorem lowerBlocks_of_single (hblocks : f.blockIds = .ok blocks) (hjobs : c.jobs = 1) :
    lowerBlocks f a target c = runSerial (lowerNth f a target c) blocks := by
  have hworkers : ¬ 1 < c.workers f := by
    rw [Settings.workers, hjobs]
    exact Nat.not_lt.2 (Nat.min_le_left 1 _)
  unfold lowerBlocks
  rw [hblocks]
  exact if_neg hworkers

/-- **A function that is lowered is lowered block by block.** -/
theorem lowerFunc_eq_ok {stats : Stats} (h : (lowerFunc f a target c).result = .ok stats) :
    ∃ blocks xs, f.blockIds = .ok blocks ∧
      List.Forall₂ (fun b x => (lowerNth f a target c b).result = .ok x) blocks xs ∧
      (lowerFunc f a target c).func = f.withInsts (xs.map Prod.fst) := by
  obtain ⟨xs, hxs⟩ := exists_of_settle h
  cases hblocks : f.blockIds with
  | error e =>
    unfold lowerBlocks at hxs
    rw [hblocks] at hxs
    cases hxs
  | ok blocks =>
    have hlowered := (lowerBlocks_eq_ok_iff hblocks).1 hxs
    refine ⟨blocks, xs, rfl, hlowered, ?_⟩
    rw [lowerFunc_eq_commit hblocks hlowered, commit_func]

/-- **Every schedule leads to the same function**: when all workers have stopped, the work has
ended well if every block can be lowered, and badly if some block cannot. -/
theorem every_schedule_agrees {schedule : List Nat} {p : Pool (List Inst × Stats)}
    (hblocks : f.blockIds = .ok blocks) (hjobs : 1 < c.workers f)
    (hp : (Pool.start (c.workers f) blocks).runSchedule (lowerNth f a target c) schedule = p)
    (hstop : p.stopped = true) :
    ((∀ b ∈ blocks, ∃ x, (lowerNth f a target c b).result = .ok x) →
      EndsWell f a target c blocks
        (Pool.ended (lowerNth f a target c) (Pool.start (c.workers f) blocks) schedule) p.join) ∧
    ((∃ b ∈ blocks, ∃ e, (lowerNth f a target c b).result = .error e) →
      EndsBadly f a target c blocks
        (Pool.ended (lowerNth f a target c) (Pool.start (c.workers f) blocks) schedule) p.join) := by
  subst hp
  constructor
  · intro hok
    exact endsWell_of_sound hblocks (sound_of_schedule hblocks hjobs a target schedule) hstop hok
  · rintro ⟨b, hb, e, he⟩
    exact endsBadly_of_sound (sound_of_schedule hblocks hjobs a target schedule) hstop hb he

end Settle

/-- A function that computes the sum twice. -/
def sumTwice : Func := ⟨"twice", #[.gpr64, .gpr64], #[⟨sumInsts⟩, ⟨sumInsts⟩]⟩

/-- Two workers take a block each, and the second one is done first. -/
theorem every_schedule_agrees_sumTwice :
    EndsWell sumTwice sumHomes .x64 { jobs := 2, verify := true } [⟨0⟩, ⟨1⟩] [⟨1⟩, ⟨0⟩]
      (((Pool.start 2 [⟨0⟩, ⟨1⟩]).runSchedule
        (lowerNth sumTwice sumHomes .x64 { jobs := 2, verify := true })
        [0, 1, 1, 0, 1, 0]).join) := by
  have hended : Pool.ended (lowerNth sumTwice sumHomes .x64 { jobs := 2, verify := true })
      (Pool.start 2 [⟨0⟩, ⟨1⟩]) [0, 1, 1, 0, 1, 0] = [⟨1⟩, ⟨0⟩] := by decide +kernel
  have hstop : ((Pool.start 2 [⟨0⟩, ⟨1⟩]).runSchedule
      (lowerNth sumTwice sumHomes .x64 { jobs := 2, verify := true })
      [0, 1, 1, 0, 1, 0]).stopped = true := by
    decide +kernel
  have hlowered : ∀ b ∈ [⟨0⟩, ⟨1⟩], ∃ x,
      (lowerNth sumTwice sumHomes .x64 { jobs := 2, verify := true } b).result = .ok x := by
    intro b hb
    rw [List.mem_cons, List.mem_singleton] at hb
    rcases hb with rfl | rfl <;> exact ⟨_, rfl⟩
  rw [← hended]
  exact (every_schedule_agrees rfl (by decide) rfl hstop).1 hlowered

end Residency
