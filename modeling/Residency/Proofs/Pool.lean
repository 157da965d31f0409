import Mathlib.Data.List.Perm.Basic
import Mathlib.Data.List.Count
import Residency.Lowering.Pool

/-!
# No block is lost, and none is done twice

Whatever the order of their steps is, the workers of a pool deal with the blocks of their
queue one by one. A step is of one of five kinds (`Residency.Pool.Stepped`), and with some of
them a block ends (`Residency.Pool.ending`). What a schedule leaves behind is told by the
blocks that have ended along it (`Residency.Pool.ended`), and by one invariant
(`Residency.Pool.Sound`):

* a block has ended, or a worker has it, or it is in the queue; only when a worker has met an
  error can a block have been dropped;
* what came of the blocks that have ended is in their cells, or with the worker that met the
  error or broke down on the fault;
* a worker that has found the queue empty will find it empty for ever.

Every step keeps it (`Residency.Pool.Sound.step`), and so does every schedule
(`Residency.Pool.Sound.runSchedule`).
-/

namespace Residency

/-- The block that a worker has taken. -/
def Worker.block? : Worker → Option BlockId
  | .busy b => some b
  | _ => none

/-- The failure that a worker has met. -/
def Worker.failure? : Worker → Option Failure
  | .failed e => some (.error e)
  | .broken g => some (.fault g)
  | _ => none

theorem BlockId.index_inj {b b' : BlockId} (h : b.index = b'.index) : b = b' := by
  obtain ⟨n⟩ := b
  obtain ⟨n'⟩ := b'
  exact congrArg BlockId.mk (UInt32.toNat_inj.1 h)

namespace Pool

variable {α : Type} {run : BlockId → Outcome α} {p q : Pool α} {w : Nat}
  {blocks done : List BlockId}

/-! ### The kinds of steps -/

/-- The block that ends with the next step of a worker. -/
def ending (p : Pool α) (w : Nat) : Option BlockId := p.workers[w]?.bind Worker.block?

/-- What a step of a worker makes of a pool, and the block that ends with it. -/
inductive Stepped (run : BlockId → Outcome α) (p : Pool α) : Option BlockId → Pool α → Prop
  /-- The worker has stopped already, or there is none. -/
  | rest : Stepped run p none p
  /-- The worker finds the queue empty. -/
  | leave {pre post : List Worker} {q : Pool α}
      (hw : p.workers.toList = pre ++ .idle :: post) (hq : p.queue = [])
      (hw' : q.workers.toList = pre ++ .finished :: post) (hq' : q.queue = [])
      (hc : q.cells = p.cells) : Stepped run p none q
  /-- The worker takes the first block. -/
  | take {pre post : List Worker} {b : BlockId} {q : Pool α}
      (hw : p.workers.toList = pre ++ .idle :: post) (hq : p.queue = b :: q.queue)
      (hw' : q.workers.toList = pre ++ .busy b :: post) (hc : q.cells = p.cells) :
      Stepped run p none q
  /-- The worker is done with its block. -/
  | finish {pre post : List Worker} {b : BlockId} {x : α} {q : Pool α}
      (hw : p.workers.toList = pre ++ .busy b :: post) (hx : (run b).result = .ok x)
      (hw' : q.workers.toList = pre ++ .idle :: post) (hq' : q.queue = p.queue)
      (hc : q.cells = p.cells.setIfInBounds b.index (some x)) : Stepped run p (some b) q
  /-- The worker meets a failure, and if it is an error then it empties the queue. -/
  | stop {pre post : List Worker} {b : BlockId} {x : Worker} {e : Failure} {q : Pool α}
      (hw : p.workers.toList = pre ++ .busy b :: post) (he : (run b).result = .error e)
      (hx : x.failure? = some e) (hw' : q.workers.toList = pre ++ x :: post)
      (hq' : q.queue = p.queue ∨ q.queue = [] ∧ ∃ err, x = .failed err)
      (hc : q.cells = p.cells) : Stepped run p (some b) q

/-- One entry of a list, and the list with another in its place. -/
theorem exists_append_of_getElem? {β : Type} {l : List β} {k : Nat} {x : β}
    (h : l[k]? = some x) :
    ∃ pre post, l = pre ++ x :: post ∧ ∀ y, l.set k y = pre ++ y :: post := by
  obtain ⟨hk, rfl⟩ := List.getElem?_eq_some_iff.1 h
  refine ⟨l.take k, l.drop (k + 1), ?_, fun y => List.set_eq_take_append_cons_drop.trans ?_⟩
  · rw [← List.drop_eq_getElem_cons hk, List.take_append_drop]
  · rw [if_pos hk]

/-- **A step is of one of five kinds.** -/
theorem stepped (run : BlockId → Outcome α) (p : Pool α) (w : Nat) :
    Stepped run p (p.ending w) (p.step run w) := by
  unfold step ending
  cases hw : p.workers[w]? with
  | none => exact .rest
  | some x =>
    obtain ⟨pre, post, hsplit, hset⟩ :=
      exists_append_of_getElem? (l := p.workers.toList) (by rw [Array.getElem?_toList, hw])
    have hturn : ∀ y, (p.turn w y).workers.toList = pre ++ y :: post := fun y =>
      Array.toList_setIfInBounds.trans (hset y)
    cases x with
    | idle =>
      cases hq : p.queue with
      | nil => exact .leave hsplit hq (hturn _) hq rfl
      | cons b rest => exact .take hsplit hq (hturn _) rfl
    | busy b =>
      simp only [finish]
      cases hx : (run b).result with
      | ok x => exact .finish hsplit hx (hturn _) rfl rfl
      | error e =>
        cases e with
        | error err => exact .stop hsplit hx rfl (hturn _) (Or.inr ⟨rfl, err, rfl⟩) rfl
        | fault g => exact .stop hsplit hx rfl (hturn _) (Or.inl rfl) rfl
    | finished => exact .rest
    | failed e => exact .rest
    | broken g => exact .rest

/-! ### What is known of a pool -/

/-- The blocks that the workers have taken. -/
def taken (p : Pool α) : List BlockId := p.workers.toList.filterMap Worker.block?

/-- The failures that the workers have met. -/
def failures (p : Pool α) : List Failure := p.workers.toList.filterMap Worker.failure?

/-- **What is known of a pool** that began with some blocks, when some of them are done. -/
structure Sound (run : BlockId → Outcome α) (blocks done : List BlockId) (p : Pool α) :
    Prop where
  /-- Every block has a cell. -/
  cells_size : p.cells.size = blocks.length
  /-- There are workers. -/
  workers_ne_nil : p.workers.toList ≠ []
  /-- A block is done, taken, or in the queue; if one was dropped, then for an error. -/
  parts : ∃ dropped, (done ++ p.taken ++ p.queue ++ dropped).Perm blocks ∧
    (dropped ≠ [] → ∃ e, .error e ∈ p.failures)
  /-- What came of a block is in its cell. -/
  filled : ∀ b ∈ done, ∀ x, (run b).result = .ok x → p.cells[b.index]? = some (some x)
  /-- The failures that the workers have met are those of the blocks that are done. -/
  mem_failures_iff : ∀ e, e ∈ p.failures ↔ ∃ b ∈ done, (run b).result = .error e
  /-- A worker finishes when nothing is left to take. -/
  drained : .finished ∈ p.workers.toList → p.queue = []

section Replace

variable {pre post : List Worker} {x y : Worker} {o : Option BlockId}

theorem taken_eq (hw : p.workers.toList = pre ++ x :: post) :
    p.taken = pre.filterMap Worker.block? ++ x.block?.toList ++ post.filterMap Worker.block? := by
  rw [taken, hw, List.filterMap_append, List.filterMap_cons]
  cases x.block? <;> simp

theorem mem_failures_iff (hw : p.workers.toList = pre ++ x :: post) {e : Failure} :
    e ∈ p.failures ↔ x.failure? = some e ∨ ∃ z ∈ pre ++ post, z.failure? = some e := by
  rw [failures, hw, List.mem_filterMap]
  constructor
  · rintro ⟨z, hz, he⟩
    rcases List.mem_append.1 hz with hz | hz
    · exact Or.inr ⟨z, List.mem_append_left _ hz, he⟩
    · rcases List.mem_cons.1 hz with rfl | hz
      · exact Or.inl he
      · exact Or.inr ⟨z, List.mem_append_right _ hz, he⟩
  · rintro (he | ⟨z, hz, he⟩)
    · exact ⟨x, by simp, he⟩
    · refine ⟨z, ?_, he⟩
      rcases List.mem_append.1 hz with hz | hz <;> simp [hz]

/-- When a worker is at something else, the parts of the queue are the same if those of this
worker are. -/
theorem perm_of_replace {dropped dropped' : List BlockId}
    (hw : p.workers.toList = pre ++ x :: post) (hw' : q.workers.toList = pre ++ y :: post)
    (h : (o.toList ++ y.block?.toList ++ q.queue ++ dropped').Perm
      (x.block?.toList ++ p.queue ++ dropped)) :
    (done ++ o.toList ++ q.taken ++ q.queue ++ dropped').Perm
      (done ++ p.taken ++ p.queue ++ dropped) := by
  rw [taken_eq hw, taken_eq hw', List.perm_iff_count]
  intro b
  have hb := List.perm_iff_count.1 h b
  simp only [List.count_append] at hb ⊢
  omega

end Replace

namespace Sound

theorem start {jobs : Nat} (hjobs : 0 < jobs) : Sound run blocks [] (Pool.start jobs blocks) where
  cells_size := by simp [Pool.start]
  workers_ne_nil := by simp [Pool.start, Nat.ne_of_gt hjobs]
  parts := by
    refine ⟨[], ?_, fun h => absurd rfl h⟩
    have htaken : (Pool.start jobs blocks : Pool α).taken = [] := by
      simp [taken, Pool.start, Worker.block?]
    rw [htaken]
    simp [Pool.start]
  filled _ hb := nomatch hb
  mem_failures_iff e := by simp [failures, Pool.start, Worker.failure?]
  drained := by simp [Pool.start]

/-- A block that is done, or that a worker has taken, is one of the blocks. -/
theorem mem_of_done {b : BlockId} (h : Sound run blocks done p) (hb : b ∈ done ++ p.taken) :
    b ∈ blocks := by
  obtain ⟨dropped, hperm, -⟩ := h.parts
  refine hperm.subset ?_
  rw [List.append_assoc]
  exact List.mem_append_left _ hb

/-- A step that puts one worker at something else keeps what is known of a pool, if it does
so for this worker. -/
theorem replace {pre post : List Worker} {x y : Worker} {o : Option BlockId}
    (h : Sound run blocks done p)
    (hw : p.workers.toList = pre ++ x :: post) (hw' : q.workers.toList = pre ++ y :: post)
    (hparts : ∀ dropped, ∃ dropped', (o.toList ++ y.block?.toList ++ q.queue ++ dropped').Perm
      (x.block?.toList ++ p.queue ++ dropped) ∧
      (dropped' ≠ [] → dropped ≠ [] ∨ ∃ e, y.failure? = some (.error e)))
    (hsize : q.cells.size = p.cells.size)
    (hfilled : ∀ b ∈ done ++ o.toList, ∀ x, (run b).result = .ok x →
      q.cells[b.index]? = some (some x))
    (hx : x.failure? = none)
    (hy : ∀ e, y.failure? = some e ↔ ∃ b ∈ o, (run b).result = .error e)
    (hqueue : p.queue = [] → q.queue = []) (hleave : y = .finished → q.queue = []) :
    Sound run blocks (done ++ o.toList) q := by
  have hfailures : ∀ e, e ∈ q.failures ↔ e ∈ p.failures ∨ y.failure? = some e := by
    intro e
    rw [Pool.mem_failures_iff hw, Pool.mem_failures_iff hw', hx]
    simp only [reduceCtorEq, false_or]
    exact or_comm
  refine ⟨hsize.trans h.cells_size, by simp [hw'], ?_, hfilled, fun e => ?_, fun hfin => ?_⟩
  · obtain ⟨dropped, hperm, hdropped⟩ := h.parts
    obtain ⟨dropped', hperm', hdropped'⟩ := hparts dropped
    refine ⟨dropped', (perm_of_replace hw hw' hperm').trans hperm, fun hne => ?_⟩
    rcases hdropped' hne with hne | ⟨e, he⟩
    · obtain ⟨e, he⟩ := hdropped hne
      exact ⟨e, (hfailures _).2 (Or.inl he)⟩
    · exact ⟨e, (hfailures _).2 (Or.inr he)⟩
  · rw [hfailures, h.mem_failures_iff, hy]
    constructor
    · rintro (⟨b, hb, he⟩ | ⟨b, hb, he⟩)
      · exact ⟨b, List.mem_append_left _ hb, he⟩
      · exact ⟨b, List.mem_append_right _ (Option.mem_toList.2 hb), he⟩
    · rintro ⟨b, hb, he⟩
      rcases List.mem_append.1 hb with hb | hb
      · exact Or.inl ⟨b, hb, he⟩
      · exact Or.inr ⟨b, Option.mem_toList.1 hb, he⟩
  · rw [hw', List.mem_append, List.mem_cons] at hfin
    rcases hfin with hfin | hfin | hfin
    · exact hqueue (h.drained (by simp [hw, hfin]))
    · exact hleave hfin.symm
    · exact hqueue (h.drained (by simp [hw, hfin]))

/-- **Every step keeps what is known of a pool**, and the block that ends with it is done. -/
theorem step {o : Option BlockId} (h : Sound run blocks done p)
    (hindex : ∀ b ∈ blocks, b.index < blocks.length) (hs : Stepped run p o q) :
    Sound run blocks (done ++ o.toList) q := by
  cases hs with
  | rest => simpa using h
  | leave hw hq hw' hq' hc =>
    refine h.replace hw hw' (fun dropped => ⟨dropped, ?_, Or.inl⟩) (by rw [hc]) ?_ rfl
      (by simp [Worker.failure?]) (fun _ => hq') (fun _ => hq')
    · simp [hq, hq', Worker.block?]
    · simpa [hc] using h.filled
  | take hw hq hw' hc =>
    refine h.replace hw hw' (fun dropped => ⟨dropped, ?_, Or.inl⟩) (by rw [hc]) ?_ rfl
      (by simp [Worker.failure?]) (fun hnil => ?_) nofun
    · simp [hq, Worker.block?]
    · simpa [hc] using h.filled
    · rw [hq] at hnil
      cases hnil
  | @finish pre post b x _ hw hx hw' hq' hc =>
    -- The block that was taken is one of the blocks, so it has a cell.
    have hb : b.index < p.cells.size := by
      rw [h.cells_size]
      refine hindex b (h.mem_of_done ?_)
      simp [taken_eq hw, Worker.block?]
    refine h.replace hw hw' (fun dropped => ⟨dropped, ?_, Or.inl⟩) (by simp [hc]) ?_ rfl
      (by simp [Worker.failure?, hx]) (fun hnil => hq'.trans hnil) nofun
    · simp [hq', Worker.block?]
    · intro b' hb' x' hx'
      rw [hc, Array.getElem?_setIfInBounds]
      by_cases heq : b.index = b'.index
      · obtain rfl := BlockId.index_inj heq
        rw [if_pos rfl, if_pos hb, Except.ok.inj (hx.symm.trans hx')]
      · rw [if_neg heq]
        refine h.filled b' ?_ x' hx'
        rcases List.mem_append.1 hb' with hb' | hb'
        · exact hb'
        · obtain rfl : b' = b := by simpa using hb'
          exact absurd rfl heq
  | @stop pre post b x e _ hw he hx hw' hq' hc =>
    refine h.replace hw hw' (fun dropped => ?_) (by rw [hc]) ?_ rfl ?_ (fun hnil => ?_) ?_
    · have hblock : x.block? = none := by cases x <;> first | rfl | cases hx
      have hbusy : (Worker.busy b).block? = some b := rfl
      -- An error drops what is in the queue, and a fault drops nothing.
      rcases hq' with hq' | ⟨hq', err, rfl⟩
      · exact ⟨dropped, by simp [hq', hblock, hbusy], Or.inl⟩
      · refine ⟨p.queue ++ dropped, by simp [hq', Worker.block?], fun _ => Or.inr ⟨err, rfl⟩⟩
    · intro b' hb' x' hx'
      rw [hc]
      refine h.filled b' ?_ x' hx'
      rcases List.mem_append.1 hb' with hb' | hb'
      · exact hb'
      · obtain rfl : b' = b := by simpa using hb'
        cases he.symm.trans hx'
    · intro e'
      simp [hx, he]
    · rcases hq' with hq' | ⟨hq', -⟩
      · exact hq'.trans hnil
      · exact hq'
    · rintro rfl
      cases hx

end Sound

/-! ### Schedules -/

/-- The blocks that end along a schedule, in the order of their ends. -/
def ended (run : BlockId → Outcome α) : Pool α → List Nat → List BlockId
  | _, [] => []
  | p, w :: rest => (p.ending w).toList ++ ended run (p.step run w) rest

/-- **Every schedule keeps what is known of a pool**, and the blocks that end along it are
done. -/
theorem Sound.runSchedule {schedule : List Nat} (h : Sound run blocks done p)
    (hindex : ∀ b ∈ blocks, b.index < blocks.length) :
    Sound run blocks (done ++ ended run p schedule) (p.runSchedule run schedule) := by
  induction schedule generalizing done p with
  | nil => simpa [ended, Pool.runSchedule] using h
  | cons w rest ih =>
    rw [ended, ← List.append_assoc]
    exact ih (h.step hindex (stepped run p w))

/-! ### When all workers have stopped -/

theorem taken_of_stopped (hp : p.stopped = true) : p.taken = [] := by
  rw [taken, List.filterMap_eq_nil_iff]
  intro x hx
  have hstop : x.stopped = true := by
    rw [stopped, ← Array.all_toList, List.all_eq_true] at hp
    exact hp x hx
  cases x <;> first | rfl | cases hstop

/-- **When all workers have stopped without a failure, all blocks are done**, each of them
once. -/
theorem Sound.done_perm (h : Sound run blocks done p) (hp : p.stopped = true)
    (hfail : p.failures = []) : done.Perm blocks := by
  obtain ⟨dropped, hperm, hdropped⟩ := h.parts
  have hnil : dropped = [] := by
    by_contra hne
    obtain ⟨e, he⟩ := hdropped hne
    rw [hfail] at he
    cases he
  -- A worker that has stopped without a failure has found the queue empty.
  obtain ⟨x, hx⟩ := List.exists_mem_of_ne_nil _ h.workers_ne_nil
  have hfinished : x = .finished := by
    have hnone := List.filterMap_eq_nil_iff.1 hfail x hx
    rw [stopped, ← Array.all_toList, List.all_eq_true] at hp
    have hstop := hp x hx
    cases x with
    | idle => cases hstop
    | busy b => cases hstop
    | finished => rfl
    | failed e => cases hnone
    | broken g => cases hnone
  rw [taken_of_stopped hp, h.drained (hfinished ▸ hx), hnil] at hperm
  simpa using hperm

/-- So if a block cannot be done, then one of those that are done has failed. -/
theorem Sound.failures_ne_nil {b : BlockId} {e : Failure} (h : Sound run blocks done p)
    (hp : p.stopped = true) (hb : b ∈ blocks) (he : (run b).result = .error e) :
    p.failures ≠ [] := by
  intro hfail
  have hmem := (h.mem_failures_iff e).2 ⟨b, (h.done_perm hp hfail).mem_iff.2 hb, he⟩
  rw [hfail] at hmem
  cases hmem

/-! ### What comes of the work -/

theorem fault?_eq_some_iff {x : Worker} {g : Fault} :
    x.fault? = some g ↔ x.failure? = some (.fault g) := by
  cases x <;> simp [Worker.fault?, Worker.failure?]

theorem error?_eq_some_iff {x : Worker} {e : LoweringError} :
    x.error? = some e ↔ x.failure? = some (.error e) := by
  cases x <;> simp [Worker.error?, Worker.failure?]

/-- **A failure that a worker has met comes of the work**: a fault if there is one, and an
error otherwise. -/
theorem join_of_failures (hfail : p.failures ≠ []) :
    ∃ e ∈ p.failures, p.join.result = .error e ∧
      ((∃ g, e = .fault g) ↔ ∃ g, .fault g ∈ p.failures) := by
  have hmem : ∀ {x : Worker} {e : Failure}, x ∈ p.workers.toList → x.failure? = some e →
      e ∈ p.failures := fun hx he => List.mem_filterMap.2 ⟨_, hx, he⟩
  unfold join
  cases hfault : p.workers.toList.findSome? Worker.fault? with
  | some g =>
    obtain ⟨x, hx, hg⟩ := List.exists_of_findSome?_eq_some hfault
    have hg' := hmem hx (fault?_eq_some_iff.1 hg)
    exact ⟨.fault g, hg', rfl, iff_of_true ⟨g, rfl⟩ ⟨g, hg'⟩⟩
  | none =>
    rw [List.findSome?_eq_none_iff] at hfault
    have hnone : ∀ g, .fault g ∉ p.failures := by
      intro g hg
      obtain ⟨x, hx, hg⟩ := List.mem_filterMap.1 hg
      rw [← fault?_eq_some_iff, hfault x hx] at hg
      cases hg
    cases herror : p.workers.toList.findSome? Worker.error? with
    | some e =>
      obtain ⟨x, hx, he⟩ := List.exists_of_findSome?_eq_some herror
      refine ⟨.error e, hmem hx (error?_eq_some_iff.1 he), rfl, iff_of_false nofun ?_⟩
      rintro ⟨g, hg⟩
      exact hnone g hg
    | none =>
      rw [List.findSome?_eq_none_iff] at herror
      obtain ⟨e, he⟩ := List.exists_mem_of_ne_nil _ hfail
      obtain ⟨x, hx, hxe⟩ := List.mem_filterMap.1 he
      cases e with
      | fault g => exact absurd he (hnone g)
      | error e =>
        rw [← error?_eq_some_iff, herror x hx] at hxe
        cases hxe

theorem collectFrom_map_some {xs : List α} {n : Nat} : collectFrom n (xs.map some) = .ok xs := by
  induction xs generalizing n with
  | nil => rfl
  | cons x xs ih =>
    rw [List.map_cons, collectFrom, ih]
    rfl

/-- Without a failure, the contents of the cells come of the work. -/
theorem join_of_cells {xs : List α} (hfail : p.failures = [])
    (hcells : p.cells.toList = xs.map some) : p.join.result = .ok xs := by
  have hnone := List.filterMap_eq_nil_iff.1 hfail
  have hfault : p.workers.toList.findSome? Worker.fault? = none := by
    rw [List.findSome?_eq_none_iff]
    intro x hx
    rw [Option.eq_none_iff_forall_ne_some]
    intro g hg
    rw [fault?_eq_some_iff, hnone x hx] at hg
    cases hg
  have herror : p.workers.toList.findSome? Worker.error? = none := by
    rw [List.findSome?_eq_none_iff]
    intro x hx
    rw [Option.eq_none_iff_forall_ne_some]
    intro e he
    rw [error?_eq_some_iff, hnone x hx] at he
    cases he
  unfold join
  rw [hfault, herror, hcells]
  exact collectFrom_map_some

/-- **When every block can be done, the cells come of the work**, in the order of the
blocks. -/
theorem Sound.join_eq_ok {xs : List α} (h : Sound run blocks done p) (hp : p.stopped = true)
    (hindex : ∀ (k : Nat) (b : BlockId), blocks[k]? = some b → b.index = k)
    (hxs : List.Forall₂ (fun b x => (run b).result = .ok x) blocks xs) :
    p.failures = [] ∧ p.join.result = .ok xs := by
  rw [List.forall₂_iff_get] at hxs
  obtain ⟨hlen, hget⟩ := hxs
  have hfail : p.failures = [] := by
    by_contra hne
    obtain ⟨e, he⟩ := List.exists_mem_of_ne_nil _ hne
    obtain ⟨b, hb, he⟩ := (h.mem_failures_iff e).1 he
    obtain ⟨k, hk, rfl⟩ := List.getElem_of_mem (h.mem_of_done (List.mem_append_left _ hb))
    cases he.symm.trans (hget k hk (hlen ▸ hk))
  refine ⟨hfail, join_of_cells hfail (List.ext_getElem? fun k => ?_)⟩
  rw [Array.getElem?_toList, List.getElem?_map]
  by_cases hk : k < blocks.length
  · have hdone : blocks[k] ∈ done := (h.done_perm hp hfail).mem_iff.2 (List.getElem_mem hk)
    have hcell := h.filled _ hdone _ (hget k hk (hlen ▸ hk))
    rw [hindex k _ (List.getElem?_eq_getElem hk)] at hcell
    rw [hcell, List.getElem?_eq_getElem (hlen ▸ hk)]
    rfl
  · rw [Array.getElem?_eq_none (by rw [h.cells_size]; omega),
      List.getElem?_eq_none (by omega)]
    rfl

end Pool

end Residency
