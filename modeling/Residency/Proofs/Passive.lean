import Residency.Proofs.Schedule

/-!
# Lowering at another level

How much is logged makes no difference to a lowering. What it does, what it asks of the target and
what becomes of it are the same at every level, and the trace at a level is what the level admits of
the fullest one (`Residency.lowerBlock_seen`, `Residency.lowerFunc_seen`), also where the lowering
fails.

A step at a level *agrees* with a step at the highest one (`Residency.Agree`) when they end in the
same way, and in states that are the same but for the messages that the level does not admit. Steps
that are built in one way from parts that agree do so themselves; and the one part of a lowering
that looks at the level is the one that logs a message (`Residency.State.log_seen`).
-/

namespace Residency

open Step

/-! ### Seen at a level -/

/-- What a level admits of a trace: the messages whose own level is not above it. -/
def Level.filter (level : Level) (trace : Array Message) : Array Message :=
  trace.filter fun m => m.level.num ≤ level.num

/-- The state with another trace. -/
def State.withTrace (t : Array Message) (s : State) : State := { s with trace := t }

/-- The state with what a level admits of its trace. -/
def State.seen (level : Level) (s : State) : State := s.withTrace (level.filter s.trace)

@[simp]
theorem State.table_seen (level : Level) (s : State) : (s.seen level).table = s.table := rfl

/-- An outcome, with what a level admits of its trace. -/
def Outcome.seen {α : Type} (level : Level) (o : Outcome α) : Outcome α :=
  { o with trace := level.filter o.trace }

/-- What came of a function, with what a level admits of the trace. -/
def FuncOutcome.seen (level : Level) (o : FuncOutcome) : FuncOutcome :=
  { o with trace := level.filter o.trace }

/-- No message is of the level at which nothing is logged. -/
theorem Level.admits_message (level : Level) (m : Message) :
    level.admits m.level = decide (m.level.num ≤ level.num) := by
  cases m <;> rfl

theorem Level.filter_append (level : Level) (t t' : Array Message) :
    level.filter (t ++ t') = level.filter t ++ level.filter t' := by
  simp [Level.filter]

/-- Everything is recorded at the highest level. -/
theorem Level.record_regEvent (trace : Array Message) (m : Message) :
    Level.regEvent.record trace m = trace.push m := by
  cases m <;> rfl

/-- Everything is recorded at the highest level, so a message may be left out there or here. -/
theorem Level.filter_record (level : Level) (trace : Array Message) (m : Message) :
    level.filter (Level.regEvent.record trace m) = level.record (level.filter trace) m := by
  rw [Level.record_regEvent, Level.record, Level.admits_message]
  split
  · rename_i h
    simp [Level.filter, of_decide_eq_true h]
  · rename_i h
    simp [Level.filter, show ¬ m.level.num ≤ level.num from fun hle => h (decide_eq_true hle)]

/-- A message that is logged at the highest level is seen at a level if it is logged there. -/
theorem State.log_seen (level : Level) (s : State) (m : Message) :
    (s.seen level).log level m = (s.log .regEvent m).seen level :=
  congrArg s.withTrace (Level.filter_record level s.trace m).symm

/-- What came of a step, in a state that is seen at a level. -/
def seenResult {α : Type} (level : Level) :
    EStateM.Result Failure State α → EStateM.Result Failure State α
  | .ok x s => .ok x (s.seen level)
  | .error e s => .error e (s.seen level)

/-! ### Steps that agree -/

/-- What `m` does at a level is what `k` does at the highest one: they end in the same way, and in
states that are the same but for the messages that the level does not admit. -/
def Agree {α : Type} (level : Level) (m k : Step α) : Prop :=
  ∀ s, m (s.seen level) = seenResult level (k s)

section Agree

variable {α β : Type} {level : Level}

theorem agree_pure (x : α) : Agree level (pure x) (pure x) := fun _ => rfl

theorem agree_fault (e : Fault) : Agree level (fault e : Step α) (fault e) := fun _ => rfl

theorem agree_known (o : Except Fault α) : Agree level (known o) (known o) := by
  cases o with
  | ok x => exact agree_pure x
  | error e => exact agree_fault e

theorem agree_modify {g h : State → State} (hgh : ∀ s, g (s.seen level) = (h s).seen level) :
    Agree level (modify g) (modify h) :=
  fun s => congrArg (EStateM.Result.ok PUnit.unit) (hgh s)

theorem agree_log (m : Message) :
    Agree level (modify fun s => s.log level m) (modify fun s => s.log .regEvent m) :=
  agree_modify fun s => State.log_seen level s m

theorem Agree.bind {m k : Step α} {m' k' : α → Step β} (h : Agree level m k)
    (h' : ∀ x, Agree level (m' x) (k' x)) : Agree level (m >>= m') (k >>= k') := by
  intro s
  change EStateM.bind m m' (s.seen level) = seenResult level (EStateM.bind k k' s)
  rw [EStateM.bind, EStateM.bind, h s]
  cases k s with
  | ok x t => exact h' x t
  | error e t => rfl

theorem agree_get_bind {m k : State → Step β}
    (h : ∀ s, Agree level (m (s.seen level)) (k s)) : Agree level (get >>= m) (get >>= k) :=
  fun s => h s s

/-- A step that looks at the state, but not at the trace. -/
theorem agree_look {m k : State → Step β} (hblind : ∀ s, m (s.seen level) = m s)
    (h : ∀ s, Agree level (m s) (k s)) : Agree level (get >>= m) (get >>= k) :=
  agree_get_bind fun s => hblind s ▸ h s

theorem agree_ite {p : Prop} [Decidable p] {m m' k k' : Step α} (h : Agree level m k)
    (h' : Agree level m' k') :
    Agree level (if p then m else m') (if p then k else k') := by
  split
  · exact h
  · exact h'

theorem agree_forM {m k : α → Step PUnit} {l : List α} (h : ∀ x, Agree level (m x) (k x)) :
    Agree level (l.forM m) (l.forM k) := by
  induction l with
  | nil => exact agree_pure _
  | cons x l ih => exact (h x).bind fun _ => ih

theorem agree_ask (target : Target) (cls : RegClass) (q : Request) :
    Agree level (ask target cls q) (ask target cls q) := by
  refine Agree.bind (agree_modify fun _ => rfl) fun _ => ?_
  cases target.answer cls q with
  | ok i => exact agree_pure i
  | error e => exact fun _ => rfl

end Agree

/-! ### Every step agrees with itself -/

/-- What is given at another level. -/
def Context.withLevel (c : Context) (level : Level) : Context := { c with level := level }

section Steps

variable {level : Level} (c : Context)

theorem agree_storeDirty (r : Reg) (x : Resident) : Agree level
    (storeDirty (c.withLevel level) r x) (storeDirty (c.withLevel .regEvent) r x) := by
  refine (agree_known _).bind fun o => ?_
  cases o with
  | none => exact agree_fault _
  | some slot =>
    refine agree_look (fun _ => rfl) fun s => agree_ite (agree_fault _) ?_
    refine (agree_known _).bind fun cls => (agree_ask _ _ _).bind fun i => ?_
    refine (agree_log _).bind fun _ => agree_look (fun _ => rfl) fun s => ?_
    exact (agree_known _).bind fun _ => agree_modify fun _ => rfl

theorem agree_dropClean (r : Reg) (x : Resident) : Agree level
    (dropClean (c.withLevel level) r x) (dropClean (c.withLevel .regEvent) r x) :=
  agree_modify fun s =>
    congrArg (State.count · .cleanEvictions) (State.log_seen level s (.dropped c.block x.vreg r))

theorem agree_vacate (r : Reg) :
    Agree level (vacate (c.withLevel level) r) (vacate (c.withLevel .regEvent) r) := by
  refine agree_look (fun _ => rfl) fun s => ?_
  have hfree : Agree level (modify fun s => s.free r) (modify fun s => s.free r) :=
    agree_modify fun _ => rfl
  cases s.table.get? r with
  | none => exact agree_pure _
  | some x =>
    refine agree_ite (agree_fault _) (agree_ite ?_ ?_)
    · exact (agree_storeDirty c r x).bind fun _ => hfree
    · exact (agree_dropClean c r x).bind fun _ => hfree

theorem agree_evict (r : Reg) :
    Agree level (evict (c.withLevel level) r) (evict (c.withLevel .regEvent) r) :=
  (agree_vacate c r).bind fun _ => agree_forM fun q => agree_vacate c q

theorem agree_assigned (id : Site) (v : VReg) : Agree level
    (assigned (c.withLevel level) id v) (assigned (c.withLevel .regEvent) id v) := by
  refine (agree_known _).bind fun o => ?_
  cases o with
  | none => exact agree_fault _
  | some r => exact agree_pure r

theorem agree_load (r : Reg) (v : VReg) :
    Agree level (load (c.withLevel level) r v) (load (c.withLevel .regEvent) r v) := by
  refine agree_look (fun _ => rfl) fun s => agree_ite (agree_fault _) ?_
  refine (agree_evict c r).bind fun _ => (agree_known _).bind fun o => ?_
  cases o with
  | none => exact agree_modify fun _ => rfl
  | some slot =>
    refine (agree_known _).bind fun cls => (agree_ask _ _ _).bind fun i => agree_modify fun s => ?_
    exact congrArg (fun t : State => ((t.push i).count .reloads).hold r ⟨v, false, s.out.size⟩)
      (State.log_seen level s (.loaded c.block v slot r))

theorem agree_touchFolded (v : VReg) : Agree level
    (touchFolded (c.withLevel level) v) (touchFolded (c.withLevel .regEvent) v) := by
  refine (agree_known _).bind fun o => ?_
  cases o with
  | none => exact agree_pure _
  | some r =>
    refine agree_look (fun _ => rfl) fun s => agree_ite ?_ (agree_pure _)
    exact Agree.bind (agree_modify fun _ => rfl) fun _ => agree_evict c r

theorem agree_touchRead (id : Site) (v : VReg) : Agree level
    (touchRead (c.withLevel level) id v) (touchRead (c.withLevel .regEvent) id v) := by
  refine (agree_assigned c id v).bind fun r => agree_look (fun _ => rfl) fun s => ?_
  have hreserve : Agree level (modify fun s => s.reserve r) (modify fun s => s.reserve r) := by
    refine agree_modify fun s => ?_
    by_cases hr : r ∈ s.reserved <;> simp [State.reserve, State.seen, State.withTrace, hr]
  exact agree_ite ((agree_load c r v).bind fun _ => hreserve) hreserve

theorem agree_touchModified (id : Site) (v : VReg) : Agree level
    (touchModified (c.withLevel level) id v) (touchModified (c.withLevel .regEvent) id v) := by
  refine (agree_assigned c id v).bind fun r => agree_get_bind fun s => ?_
  -- The new state is made from the one that is looked at, so its trace comes along.
  rw [State.table_seen]
  cases s.table.get? r with
  | none => exact agree_fault _
  | some x => exact fun _ => rfl

theorem agree_touchDefined (id : Site) (v : VReg) : Agree level
    (touchDefined (c.withLevel level) id v) (touchDefined (c.withLevel .regEvent) id v) := by
  refine (agree_assigned c id v).bind fun r => agree_look (fun _ => rfl) fun s => ?_
  have hhold : Agree level (modify fun s => s.hold r ⟨v, true, s.out.size⟩)
      (modify fun s => s.hold r ⟨v, true, s.out.size⟩) := agree_modify fun _ => rfl
  exact agree_ite ((agree_evict c r).bind fun _ => hhold) hhold

theorem agree_perform (id : Site) (e : Event) : Agree level
    (e.perform (c.withLevel level) id) (e.perform (c.withLevel .regEvent) id) := by
  cases e with
  | fold v => exact agree_touchFolded c v
  | read v => exact agree_touchRead c id v
  | modify v => exact agree_touchModified c id v
  | define v => exact agree_touchDefined c id v
  | overwrite r => exact agree_evict c r

theorem agree_checkTerminator (id : Site) (i : Inst) (isLast : Bool) :
    Agree level (checkTerminator id i isLast) (checkTerminator id i isLast) :=
  agree_ite (agree_ite (agree_fault _) (agree_ite (agree_fault _) (agree_pure _))) (agree_pure _)

theorem agree_lowerInst (id : Site) (i : Inst) : Agree level
    (lowerInst (c.withLevel level) id i) (lowerInst (c.withLevel .regEvent) id i) := by
  refine (agree_forM fun e => agree_perform c id e).bind fun _ => ?_
  refine Agree.bind (agree_modify fun _ => rfl) fun _ => ?_
  refine (agree_forM fun e => agree_perform c id e).bind fun _ => ?_
  exact agree_modify fun _ => rfl

theorem agree_lowerInsts (n : Nat) (is : List Inst) : Agree level
    (lowerInsts (c.withLevel level) n is) (lowerInsts (c.withLevel .regEvent) n is) := by
  induction is generalizing n with
  | nil => exact agree_pure _
  | cons i is ih =>
    refine (agree_known _).bind fun w => (agree_checkTerminator _ i _).bind fun _ => ?_
    exact (agree_lowerInst c _ i).bind fun _ => ih (n + 1)

/-- **The lowering of a block agrees with itself**, at any two levels. -/
theorem agree_lowerBlockStep : Agree level
    (lowerBlockStep (c.withLevel level)) (lowerBlockStep (c.withLevel .regEvent)) := by
  refine (agree_known _).bind fun b => (agree_lowerInsts c 0 b.insts).bind fun _ => ?_
  refine Agree.bind (agree_forM fun r => agree_vacate c r) fun _ => ?_
  refine Agree.bind (agree_modify fun _ => rfl) fun _ => ?_
  refine Agree.bind (agree_modify fun s => State.log_seen level s _) fun _ => ?_
  exact fun _ => rfl

end Steps

/-! ### Blocks and functions -/

section Seen

variable {f : Func} {a : Allocation} {target : Target} {c c' : Settings}

theorem lowerBlockStep_seen (level : Level) (b : BlockId) :
    lowerBlockStep ⟨f, a, target, level, b⟩ {} =
      seenResult level (lowerBlockStep ⟨f, a, target, .regEvent, b⟩ {}) :=
  agree_lowerBlockStep ⟨f, a, target, .regEvent, b⟩ {}

/-- **A block is lowered at every level as it is at the highest one**, seen at that level. -/
theorem lowerBlock_seen (level : Level) (b : BlockId) :
    lowerBlock ⟨f, a, target, level, b⟩ =
      (lowerBlock ⟨f, a, target, .regEvent, b⟩).seen level := by
  rw [lowerBlock, lowerBlockStep_seen, lowerBlock]
  cases lowerBlockStep ⟨f, a, target, .regEvent, b⟩ {} <;> rfl

/-- The same is asked of the target at every level. -/
theorem requestsFor_seen (level : Level) (b : BlockId) :
    requestsFor ⟨f, a, target, level, b⟩ = requestsFor ⟨f, a, target, .regEvent, b⟩ := by
  rw [requestsFor, lowerBlockStep_seen, requestsFor]
  cases lowerBlockStep ⟨f, a, target, .regEvent, b⟩ {} <;> rfl

theorem runSerial_seen {α : Type} {level : Level} {run run' : BlockId → Outcome α}
    (h : ∀ b, run' b = (run b).seen level) (bs : List BlockId) :
    runSerial run' bs = (runSerial run bs).seen level := by
  induction bs with
  | nil => rfl
  | cons b bs ih =>
    have hresult : ((run b).seen level).result = (run b).result := rfl
    simp only [runSerial, ih, h b, hresult]
    cases (run b).result with
    | error e => rfl
    | ok x => simp [Outcome.seen, Level.filter_append]

/-- What is made of the blocks of a function does not depend on how much is logged either. -/
theorem settle_seen {level : Level} (hlevel : c.log.level = level)
    (hfull : c'.log.level = .regEvent) (hjobs : c.jobs = c'.jobs) (hverify : c.verify = c'.verify)
    (o : Outcome (List (List Inst × Stats))) :
    settle f a c (o.seen level) = (settle f a c' o).seen level := by
  have hworkers : c.workers f = c'.workers f := by rw [Settings.workers, hjobs, Settings.workers]
  obtain ⟨result, trace⟩ := o
  rcases result with (e | e) | blocks
  · simp only [settle, Outcome.seen, FuncOutcome.log, FuncOutcome.seen, hlevel, hfull,
      Level.filter_record]
  · rfl
  · simp only [settle, Outcome.seen, commit, hverify]
    split
    · rfl
    · simp only [FuncOutcome.log, FuncOutcome.seen, hlevel, hfull, Level.filter_record, hworkers]

/-- **A lowering by one worker is the same at every level**, seen at that level. -/
theorem lowerFunc_seen {level : Level} (hlevel : c.log.level = level)
    (hfull : c'.log.level = .regEvent) (hjobs : c.jobs = 1) (hjobs' : c'.jobs = 1)
    (hverify : c.verify = c'.verify) :
    lowerFunc f a target c = (lowerFunc f a target c').seen level := by
  have hblocks : lowerBlocks f a target c = (lowerBlocks f a target c').seen level := by
    cases hids : f.blockIds with
    | error e => simp [lowerBlocks, hids, Outcome.seen, Level.filter]
    | ok blocks =>
      rw [lowerBlocks_of_single hids hjobs, lowerBlocks_of_single hids hjobs']
      refine runSerial_seen (fun b => ?_) blocks
      rw [lowerNth, lowerNth, hlevel, hfull]
      exact lowerBlock_seen level b
  rw [lowerFunc, hblocks, lowerFunc]
  exact settle_seen hlevel hfull (hjobs.trans hjobs'.symm) hverify _

end Seen

end Residency
