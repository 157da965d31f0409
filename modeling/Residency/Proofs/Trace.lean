import Residency.Proofs.Event
import Residency.Proofs.Passive

/-!
# The trace of a lowering

The trace tells the truth where a block is lowered. A state is *faithful*
(`Residency.State.Faithful`) when its messages name the requests that were made of the target, in
their order, and are as many as the counters say. At the highest level every step that succeeds
keeps it so: a load or a store is asked for, told of and counted, or the step fails on the way.
At other levels the trace is what is seen of that one (`Residency.lowerBlock_seen`).

The trace of a function is made of the traces of its blocks, in the order in which they are done
with, and then, unless there was a fault, of one message of its own
(`Residency.lowerFunc_trace`). With a single worker these are the blocks in their order, up to the
first one that fails.
-/

namespace Residency

open Step

/-! ### What a message tells -/

/-- The request to the target that a message tells of. -/
def Message.request? : Message → Option Request
  | .loaded _ v s r => some (.load v s r)
  | .stored _ v r s _ => some (.store v r s)
  | _ => none

/-- The counter of what a message tells of. -/
def Message.counter? : Message → Option Counter
  | .loaded .. => some .reloads
  | .stored .. => some .spills
  | .dropped .. => some .cleanEvictions
  | _ => none

/-- The counters of what messages tell of. -/
def Counter.told : List Counter := [.reloads, .spills, .cleanEvictions]

/-- The trace of a state tells the truth. -/
structure State.Faithful (s : State) : Prop where
  /-- The messages name the requests, in their order. -/
  requests : s.trace.toList.filterMap Message.request? = s.asked.toList
  /-- They are as many as the counters say. -/
  counted : ∀ n ∈ Counter.told,
    s.trace.toList.countP (fun m => m.counter? = some n) = s.stats.get n

section Faithful

variable {c : Context} {id : Site} {r : Reg} {e : Event} {s s' : State}

/-- Nothing is told, asked or counted. -/
theorem State.Faithful.congr (h : s.Faithful) (htrace : s'.trace = s.trace)
    (hasked : s'.asked = s.asked)
    (hstats : ∀ n ∈ Counter.told, s'.stats.get n = s.stats.get n) : s'.Faithful := by
  refine ⟨?_, fun n hn => ?_⟩
  · rw [htrace, hasked, h.requests]
  · rw [htrace, hstats n hn, h.counted n hn]

/-- A message is one more of its counter, and names the request that was made for it. -/
theorem State.Faithful.tell {m : Message} (h : s.Faithful) (htrace : s'.trace = s.trace.push m)
    (hasked : s'.asked.toList = s.asked.toList ++ m.request?.toList)
    (hstats : ∀ n ∈ Counter.told,
      s'.stats.get n = s.stats.get n + if m.counter? = some n then 1 else 0) : s'.Faithful := by
  refine ⟨?_, fun n hn => ?_⟩
  · rw [htrace, hasked, Array.toList_push, List.filterMap_append, h.requests,
      List.filterMap_cons, List.filterMap_nil]
    cases m.request? <;> rfl
  · rw [htrace, hstats n hn, Array.toList_push, List.countP_append, h.counted n hn,
      List.countP_singleton]
    simp

/-- A request that is made, told of and counted. -/
theorem State.Faithful.deal {q : Request} {m : Message} {k : Counter} (h : s.Faithful)
    (hq : m.request? = some q) (hk : m.counter? = some k) (htrace : s'.trace = s.trace.push m)
    (hasked : s'.asked = s.asked.push q) (hstats : s'.stats = s.stats.incr k) : s'.Faithful := by
  refine h.tell htrace ?_ fun n _ => ?_
  · rw [hasked, Array.toList_push, hq, Option.toList_some]
  · rw [hstats, Stats.get_incr, hk]
    simp only [Option.some.injEq]

theorem State.Faithful.reserve (h : s.Faithful) (r : Reg) : (s.reserve r).Faithful := by
  unfold State.reserve
  split
  · exact h
  · exact h.congr rfl rfl fun _ _ => rfl

/-- What messages do not tell of may be counted. -/
theorem State.Faithful.count {k : Counter} (h : s.Faithful) (hk : k ∉ Counter.told) :
    (s.count k).Faithful := by
  refine h.congr rfl rfl fun n hn => ?_
  have hne : k ≠ n := fun hkn => hk (hkn ▸ hn)
  rw [State.count, Stats.get_incr, if_neg hne, Nat.add_zero]

/-! ### Every step keeps a state faithful -/

/-- At the highest level every message is logged. -/
theorem State.trace_log (hlevel : c.level = .regEvent) (m : Message) :
    (s.log c.level m).trace = s.trace.push m := by
  rw [State.log, hlevel, Level.record_regEvent]

theorem Vacated.faithful (hlevel : c.level = .regEvent) (hs : s.Faithful)
    (h : Vacated c r s s') : s'.Faithful := by
  cases h with
  | idle _ => exact hs
  | drop _ _ _ =>
    refine hs.tell (State.trace_log hlevel _) (List.append_nil _).symm fun n _ => ?_
    refine (Stats.get_incr _ _ _).trans ?_
    simp only [Message.counter?, Option.some.injEq]
    rfl
  | store _ _ _ _ _ _ _ => exact hs.deal rfl rfl (State.trace_log hlevel _) rfl rfl

theorem faithful_of_evict (hlevel : c.level = .regEvent) (hs : s.Faithful)
    (h : evict c r s = .ok () s') : s'.Faithful :=
  evict_keeps (fun _ _ _ ht hv => hv.faithful hlevel ht) hs h

theorem Performed.faithful (hlevel : c.level = .regEvent) (hs : s.Faithful)
    (h : Performed c s e s') : s'.Faithful := by
  cases h with
  | foldAway _ => exact hs
  | foldAbsent _ _ => exact hs
  | fold _ _ he => exact faithful_of_evict hlevel (hs.count (by decide)) he
  | readHeld _ _ => exact hs.reserve _
  | readLoaded _ _ he _ _ _ =>
    refine State.Faithful.reserve ?_ _
    exact (faithful_of_evict hlevel hs he).deal rfl rfl (State.trace_log hlevel _) rfl rfl
  | readFound _ _ he _ =>
    refine State.Faithful.reserve ?_ _
    exact (faithful_of_evict hlevel hs he).congr rfl rfl fun _ _ => rfl
  | modify _ _ => exact hs.congr rfl rfl fun _ _ => rfl
  | redefine _ _ => exact hs.congr rfl rfl fun _ _ => rfl
  | define _ _ he =>
    exact (faithful_of_evict hlevel hs he).congr rfl rfl fun _ _ => rfl
  | overwrite he => exact faithful_of_evict hlevel hs he

theorem faithful_of_lowerInst (hlevel : c.level = .regEvent) {i : Inst} (hs : s.Faithful)
    (h : lowerInst c id i s = .ok () s') : s'.Faithful := by
  obtain ⟨m, t, hbefore, hafter, rfl⟩ := lowerInst_eq_ok_iff.1 h
  have hstep (e : Event) (u u' : State) (hu : u.Faithful)
      (hperform : e.perform c id u = .ok ⟨⟩ u') : u'.Faithful :=
    (perform_eq_ok_iff.1 hperform).faithful hlevel hu
  have hm : m.Faithful := forM_keeps (fun e _ => hstep e) hs hbefore
  have hrelease : m.release.Faithful := hm.congr rfl rfl fun _ _ => rfl
  have ht : t.Faithful := forM_keeps (fun e _ => hstep e) hrelease hafter
  exact ht.congr rfl rfl fun _ _ => rfl

theorem faithful_of_lowerEach (hlevel : c.level = .regEvent) {n : Nat} {is : List Inst}
    (hs : s.Faithful) (h : lowerEach c n is s = .ok () s') : s'.Faithful := by
  induction is generalizing n s with
  | nil => exact lowerEach_nil_eq_ok_iff.1 h ▸ hs
  | cons i is ih =>
    obtain ⟨w, t, -, hi, hrest⟩ := lowerEach_cons_eq_ok_iff.1 h
    exact ih (faithful_of_lowerInst hlevel hs hi) hrest

/-- **A block that is lowered leaves a faithful state**, and its counters are those of the state. -/
theorem faithful_of_lowerBlockStep (hlevel : c.level = .regEvent) {x : List Inst × Stats}
    (h : lowerBlockStep c {} = .ok x s') : s'.Faithful ∧ s'.stats = x.2 := by
  obtain ⟨b, t, t', -, hinsts, hflush, rfl, rfl⟩ := lowerBlockStep_eq_ok_iff.1 h
  have hstart : ({} : State).Faithful := ⟨rfl, by decide⟩
  have ht : t.Faithful := faithful_of_lowerEach hlevel hstart (lowerInsts_eq_ok_iff.1 hinsts).2
  have ht' : t'.Faithful := flush_keeps (fun _ _ _ hu hv => hv.faithful hlevel hu) ht hflush
  have hcount : (t'.count .blocks).Faithful := ht'.count (by decide)
  exact ⟨hcount.tell (State.trace_log hlevel _) (List.append_nil _).symm fun _ _ => rfl, rfl⟩

/-- The outcome of a block that is lowered is that of a faithful state. -/
theorem faithful_of_lowerBlock (hlevel : c.level = .regEvent) {x : List Inst × Stats}
    (h : (lowerBlock c).result = .ok x) :
    ∃ s : State, s.Faithful ∧ s.stats = x.2 ∧ (lowerBlock c).trace = s.trace ∧
      requestsFor c = s.asked.toList := by
  unfold lowerBlock at h
  unfold lowerBlock requestsFor
  cases hstep : lowerBlockStep c {} with
  | ok y s =>
    rw [hstep] at h
    cases h
    obtain ⟨hs, hstats⟩ := faithful_of_lowerBlockStep hlevel hstep
    exact ⟨s, hs, hstats, rfl, rfl⟩
  | error e s =>
    rw [hstep] at h
    cases h

end Faithful

/-! ### The trace of a function -/

section Functions

variable {f : Func} {a : Allocation} {target : Target} {c : Settings}

/-- What is told of a whole function, in the end: nothing if there was a fault. -/
def Func.report? (f : Func) (c : Settings) : Except Failure Stats → Option Message
  | .ok stats => some (.funcDone f.name stats (c.workers f))
  | .error (.error e) => some (.failed f.name e)
  | .error (.fault _) => none

theorem FuncOutcome.trace_log (o : FuncOutcome) (level : Level) (m : Message) :
    (o.log level m).trace = o.trace ++ level.filter #[m] := by
  rw [FuncOutcome.log, Level.record, Level.admits_message, Level.filter]
  by_cases h : m.level.num ≤ level.num <;> simp [h]

theorem commit_trace {blocks : List (List Inst × Stats)} {trace : Array Message} :
    (commit f a c blocks trace).trace = trace ++
      c.log.level.filter (f.report? c (commit f a c blocks trace).result).toArray := by
  unfold commit
  dsimp only
  split
  · exact Array.append_empty.symm
  · exact FuncOutcome.trace_log _ _ _

/-- What is made of the blocks of a function comes with what was logged of them, and behind it what
is told of the function, if the level admits it. -/
theorem settle_trace (o : Outcome (List (List Inst × Stats))) :
    (settle f a c o).trace = o.trace ++
      c.log.level.filter (f.report? c (settle f a c o).result).toArray := by
  unfold settle
  split
  · exact commit_trace
  · exact FuncOutcome.trace_log _ _ _
  · exact Array.append_empty.symm

/-- Blocks one after the other leave the traces of the blocks in their order, up to the first one
that fails. -/
theorem runSerial_trace {α : Type} (run : BlockId → Outcome α) (bs : List BlockId) :
    (runSerial run bs).trace.toList =
      (bs.take (bs.findIdx (fun b => !(run b).result.isOk) + 1)).flatMap
        fun b => (run b).trace.toList := by
  induction bs with
  | nil => rfl
  | cons b bs ih =>
    rw [runSerial, List.findIdx_cons]
    cases (run b).result with
    | error e => simp [Except.isOk, Except.toBool]
    | ok x => simp [Except.isOk, Except.toBool, ih]

theorem Pool.finish_trace {α : Type} (p : Pool α) (w : Nat) (b : BlockId) (o : Outcome α) :
    (p.finish w b o).trace = p.trace ++ o.trace := by
  unfold Pool.finish
  dsimp only
  split <;> rfl

/-- A step of a worker adds the trace of the block that ends with it. -/
theorem Pool.step_trace {α : Type} (run : BlockId → Outcome α) (p : Pool α) (w : Nat) :
    (p.step run w).trace.toList =
      p.trace.toList ++ (p.ending w).toList.flatMap fun b => (run b).trace.toList := by
  unfold Pool.step Pool.ending
  cases p.workers[w]? with
  | none => exact (List.append_nil _).symm
  | some x =>
    cases x with
    | idle => cases p.queue <;> exact (List.append_nil _).symm
    | busy b =>
      dsimp only
      rw [Pool.finish_trace]
      simp [Worker.block?]
    | finished => exact (List.append_nil _).symm
    | failed e => exact (List.append_nil _).symm
    | broken e => exact (List.append_nil _).symm

/-- **A schedule adds the traces of the blocks that end along it**, in the order of their ends. -/
theorem Pool.runSchedule_trace {α : Type} (run : BlockId → Outcome α) (p : Pool α)
    (schedule : List Nat) :
    (p.runSchedule run schedule).trace.toList =
      p.trace.toList ++ (Pool.ended run p schedule).flatMap fun b => (run b).trace.toList := by
  induction schedule generalizing p with
  | nil => exact (List.append_nil _).symm
  | cons w rest ih =>
    rw [Pool.ended, List.flatMap_append, ← List.append_assoc, ← Pool.step_trace]
    exact ih (p.step run w)

/-- The blocks that a lowering is done with in the end, in the order of their ends: with one worker
those up to the first one that fails. -/
def Func.blocksDone (f : Func) (a : Allocation) (target : Target) (c : Settings)
    (blocks : List BlockId) : List BlockId :=
  if 1 < c.workers f then
    Pool.ended (lowerNth f a target c) (Pool.start (c.workers f) blocks)
      (Pool.oneByOne (c.workers f) blocks.length)
  else blocks.take (blocks.findIdx (fun b => !(lowerNth f a target c b).result.isOk) + 1)

/-- **The trace of a function** is the traces of the blocks that the lowering is done with, and
behind them what is told of the function, if the level admits it. -/
theorem lowerFunc_trace {blocks : List BlockId} (hblocks : f.blockIds = .ok blocks) :
    (lowerFunc f a target c).trace.toList =
      ((f.blocksDone a target c blocks).flatMap fun b => (lowerNth f a target c b).trace.toList) ++
        (c.log.level.filter
          (f.report? c (lowerFunc f a target c).result).toArray).toList := by
  have hdone : (lowerBlocks f a target c).trace.toList =
      (f.blocksDone a target c blocks).flatMap fun b => (lowerNth f a target c b).trace.toList := by
    unfold lowerBlocks Func.blocksDone
    rw [hblocks]
    dsimp only
    split
    · exact Pool.runSchedule_trace _ _ _
    · exact runSerial_trace _ _
  rw [lowerFunc, settle_trace, Array.toList_append, hdone]

end Functions

/-! ### Faithful and passive -/

/-- **The trace is faithful and passive.** A function that is lowered by one worker comes out the
same at every two levels, with the same result, whether it is a success, an error or a fault; and
the trace at a level is the fullest one without the messages above the level. So does each block,
and the same is asked of the target for it at every level.

The fullest trace of a block that is lowered has a message for every load, store and value dropped
that is counted, and its messages name the requests made of the target, in the same order: so the
`k`-th store told of is the `k`-th store asked for, with its virtual register, register and slot,
and likewise for loads. -/
theorem trace_faithful_and_passive (f : Func) (a : Allocation) (target : Target) :
    (∀ (verify : Bool) (outlet : Outlet) (level level' : Level),
      let run (l : Level) := lowerFunc f a target ⟨⟨l, outlet⟩, 1, verify⟩
      (run level).result = (run level').result ∧ (run level).func = (run level').func ∧
        (run level).trace = (run .regEvent).trace.filter fun m => m.level.num ≤ level.num) ∧
    ∀ b,
      (∀ level,
        lowerBlock ⟨f, a, target, level, b⟩ =
          (lowerBlock ⟨f, a, target, .regEvent, b⟩).seen level ∧
        requestsFor ⟨f, a, target, level, b⟩ = requestsFor ⟨f, a, target, .regEvent, b⟩) ∧
      ∀ insts stats, (lowerBlock ⟨f, a, target, .regEvent, b⟩).result = .ok (insts, stats) →
        let messages := (lowerBlock ⟨f, a, target, .regEvent, b⟩).trace.toList
        messages.countP (fun m => m.counter? = some .reloads) = stats.reloads ∧
          messages.countP (fun m => m.counter? = some .spills) = stats.spills ∧
          messages.countP (fun m => m.counter? = some .cleanEvictions) = stats.cleanEvictions ∧
          messages.filterMap Message.request? =
            requestsFor ⟨f, a, target, .regEvent, b⟩ := by
  constructor
  · intro verify outlet level level' run
    have hseen (l : Level) : run l = (run .regEvent).seen l := lowerFunc_seen rfl rfl rfl rfl rfl
    refine ⟨?_, ?_, ?_⟩
    · rw [hseen level, hseen level']
      rfl
    · rw [hseen level, hseen level']
      rfl
    · rw [hseen level]
      rfl
  · intro b
    refine ⟨fun level => ⟨lowerBlock_seen level b, requestsFor_seen level b⟩, ?_⟩
    intro insts stats h messages
    obtain ⟨s, hs, hstats, htrace, hasked⟩ := faithful_of_lowerBlock rfl h
    have hmessages : messages = s.trace.toList := congrArg Array.toList htrace
    have hcounted := hs.counted
    rw [hstats] at hcounted
    rw [hmessages, hasked]
    exact ⟨hcounted .reloads (by decide), hcounted .spills (by decide),
      hcounted .cleanEvictions (by decide), hs.requests⟩

end Residency
