import Residency.Proofs.Promises
import Residency.Proofs.Reasons
import Residency.Proofs.Trustworthy

/-!
# How the lowering of a function may end

The lowering of a function that was read from a text ends in one of four ways
(`Residency.Ending`): it succeeds; or the target refuses, and its error is passed on; or a block
cannot be lowered, for one of the reasons of `Residency.Reason`; or the check of the lowered
function finds a virtual register that is folded and has no slot. A function that is not lowered
stays as it was.

So what a broken table could lead to does not arise (`Residency.documented_of_read`). The tables of
a function that was read are complete (`Residency.complete_of_read`), and then every failure of a
block has its reason (`Residency.reason_of_lowerBlock`).
-/

namespace Residency

variable {f : Func} {a : Allocation} {target : Target} {c : Settings}

/-! ### The tables of a function that was read -/

section Read

variable {name text : String}

/-- The virtual registers that are folded are declared. -/
theorem index_lt_of_folded (h : Text.read name text = .ok (f, a)) {b : Block} (hb : b ∈ f.blocks)
    {i : Inst} (hi : i ∈ b.insts) {v : VReg} (hv : .folded v ∈ i.operands) :
    v.index < a.placements.size := by
  obtain ⟨-, hdeclared, -, -⟩ := writable_of_read h
  obtain ⟨s, -, hread⟩ := Text.read_eq_ok_iff.1 h
  rw [(Text.sized_of_read hread).1]
  exact hdeclared b hb i hi _ hv v rfl

/-- The tables of a function that was read are complete for each of its blocks. -/
theorem complete_of_read (h : Text.read name text = .ok (f, a)) {b : Block} (hb : b ∈ f.blocks)
    {level : Level} {id : BlockId} : Context.Complete ⟨f, a, target, level, id⟩ b.insts := by
  obtain ⟨-, hdeclared, -, -⟩ := writable_of_read h
  obtain ⟨s, -, hread⟩ := Text.read_eq_ok_iff.1 h
  have hsized := (Text.sized_of_read hread).1
  refine ⟨hsized, fun i hi v hv => ?_, fun site v hv => ?_⟩
  · obtain ⟨o, ho, href⟩ := Inst.names_iff.1 hv
    rw [hsized]
    refine hdeclared b hb i hi o ho v ?_
    cases o <;> simp_all [Operand.ref?, Operand.virtual?, RegRef.virtual?]
  · have hfold : v ∈ ((f.inst? site).elim [] Inst.folds).eraseDups :=
      Text.foldedInto_of_read hread site ▸ hv
    rw [List.mem_eraseDups] at hfold
    cases hi : f.inst? site with
    | none =>
      rw [hi] at hfold
      cases hfold
    | some i =>
      rw [hi] at hfold
      obtain ⟨b', hb', hi'⟩ := Option.bind_eq_some_iff.1 hi
      exact index_lt_of_folded h (Array.mem_of_getElem? hb') (List.mem_of_getElem? hi')
        (Inst.mem_folds_iff.1 hfold)

end Read

/-! ### Endings -/

/-- How the lowering of a function may end: with a result, and with a function. -/
inductive Ending (f : Func) (a : Allocation) (target : Target) (c : Settings) :
    Except Failure Stats → Func → Prop
  /-- All blocks are lowered and take their places. -/
  | done {ids : List BlockId} {xs : List (List Inst × Stats)} (hids : f.blockIds = .ok ids)
      (hxs : List.Forall₂ (fun b x => (lowerNth f a target c b).result = .ok x) ids xs) :
      Ending f a target c (.ok (Stats.sum (xs.map Prod.snd))) (f.withInsts (xs.map Prod.fst))
  /-- The target has refused a load or a store, and its error is passed on. -/
  | refused {e : LoweringError} (h : target.Refuses e) : Ending f a target c (.error (.error e)) f
  /-- There is a reason why some block cannot be lowered. -/
  | faulted {id : BlockId} {b : Block} {g : Fault} (hb : f.block id = .ok b)
      (h : Reason ⟨f, a, target, c.log.level, id⟩ b.insts (.fault g)) :
      Ending f a target c (.error (.fault g)) f
  /-- The blocks are lowered, but the check finds a virtual register that is folded and has no
  slot. -/
  | leftSlotless {ids : List BlockId} {xs : List (List Inst × Stats)} {b : Block} {i : Inst}
      {v : VReg} {site : Site} {j : Inst} (hids : f.blockIds = .ok ids)
      (hxs : List.Forall₂ (fun b x => (lowerNth f a target c b).result = .ok x) ids xs)
      (hverify : c.verify = true) (hb : b ∈ f.blocks) (hi : i ∈ b.insts)
      (hv : .folded v ∈ i.operands) (hslot : a.slot? v = .ok none) :
      Ending f a target c (.error (.fault (.leftSlotless site v j)))
        (f.withInsts (xs.map Prod.fst))

/-- Why a function is left as it was. -/
theorem ending_of_failure {id : BlockId} {b : Block} {e : Failure} (hb : f.block id = .ok b)
    (h : Reason ⟨f, a, target, c.log.level, id⟩ b.insts e) : Ending f a target c (.error e) f := by
  cases e with
  | error e =>
    cases h with
    | refused hrefuse => exact .refused hrefuse
  | fault g => exact .faulted hb h

/-- **The lowering of a function ends in one of four ways** when a single worker does it and the
tables are complete. -/
theorem ending_of_lowerFunc (htarget : target.Plain) (hjobs : c.jobs = 1) (hnum : f.Numbered)
    (hcomplete : ∀ id, ∀ b ∈ f.blocks, Context.Complete ⟨f, a, target, c.log.level, id⟩ b.insts)
    (hfolded : ∀ b ∈ f.blocks, ∀ i ∈ b.insts, ∀ v, .folded v ∈ i.operands →
      v.index < a.placements.size)
    (hlen : ∀ b x, (lowerNth f a target c b).result = .ok x → x.1.length < 2 ^ 32) :
    Ending f a target c (lowerFunc f a target c).result (lowerFunc f a target c).func := by
  obtain ⟨ids, hids⟩ := Func.exists_blockIds hnum.blocks
  cases hall : (lowerBlocks f a target c).result with
  | error e =>
    -- Some block is not lowered, and the tables are complete, so there is a reason for it.
    obtain ⟨hresult, hfunc⟩ := settle_of_error (f := f) (a := a) (c := c) hall
    have hserial : lowerBlocks f a target c = runSerial (lowerNth f a target c) ids :=
      lowerBlocks_of_single hids hjobs
    obtain ⟨id, hid, he⟩ := exists_of_runSerial_eq_error (hserial ▸ hall)
    obtain ⟨b, hb, hidb⟩ := exists_of_forall₂ (Func.forall₂_blockIds hids) hid
    have hmem : b ∈ f.blocks := Array.mem_toList_iff.1 hb
    have hreason := reason_of_lowerBlock (c := ⟨f, a, target, c.log.level, id⟩) hidb
      (hnum.insts b hmem) (hcomplete id b hmem) he
    rw [lowerFunc, hresult, hfunc]
    exact ending_of_failure hidb hreason
  | ok xs =>
    -- All blocks are lowered, and the check is what is left.
    have hxs := (lowerBlocks_eq_ok_iff hids).1 hall
    rw [lowerFunc_eq_commit hids hxs, commit_func]
    cases hresult : (commit f a c xs (lowerBlocks f a target c).trace).result with
    | ok stats =>
      obtain ⟨rfl, -⟩ := commit_eq_ok_iff.1 hresult
      exact .done hids hxs
    | error e =>
      obtain ⟨hverify, g, rfl, hg⟩ := commit_eq_error hresult
      have hcomposes := composes_of_forall₂ htarget hids hxs
      have hshort : ∀ x ∈ xs, x.1.length < 2 ^ 32 := by
        intro x hx
        obtain ⟨b, -, hb⟩ := exists_of_forall₂ hxs.flip hx
        exact hlen b x hb
      obtain ⟨b, hb, i, hi, v, hv, ⟨hslot, -⟩ | ⟨hslot, id, j, rfl⟩⟩ :=
        exists_folded_of_checkLowered_eq_error hcomposes (numbered_withInsts hids hcomposes hshort)
          hg
      · exact absurd (Or.inr (Or.inl hslot))
          ((hcomplete ⟨0⟩ b hb).ne_error (hfolded b hb i hi v hv))
      · exact .leftSlotless hids hxs hverify hb hi hv hslot

/-! ### Positions and messages -/

/-- The register at the position of a register is that register. -/
theorem Reg.ofIndex?_eq_some_iff {n : Nat} {r : Reg} : Reg.ofIndex? n = some r ↔ r.index = n := by
  unfold Reg.ofIndex? Reg.index
  constructor
  · intro h
    obtain ⟨hn, rfl⟩ := List.getElem?_eq_some_iff.1 h
    exact Reg.nodup_all.idxOf_getElem n hn
  · rintro rfl
    exact List.getElem?_idxOf (Reg.mem_all r)

/-- Every message of a lowering may be logged, whatever the log is. -/
theorem Message.logged (m : Message) (log : Log) (d : Directory) :
    ∃ d', (log.message m.level m.text) d = .ok () d' := by
  unfold Log.message
  split
  · have hlevel : m.level ≠ .disabled := by cases m <;> nofun
    rw [if_neg hlevel]
    exact ⟨_, rfl⟩
  · exact ⟨d, rfl⟩

/-! ### Functions that were read -/

/-- **What is documented of a lowering.** -/
structure Documented (f : Func) (a : Allocation) (target : Target) (c : Settings) : Prop where
  /-- It ends in one of four ways. -/
  ending : Ending f a target c (lowerFunc f a target c).result (lowerFunc f a target c).func
  /-- Its messages can be logged. -/
  logged : ∀ m ∈ (lowerFunc f a target c).trace, ∀ d,
    ∃ d', (c.log.message m.level m.text) d = .ok () d'
  /-- Every register has its position in the register file, and every position a register. -/
  indexed : (∀ r : Reg, r.index < Reg.all.length ∧ Reg.ofIndex? r.index = some r) ∧
    ∀ n < Reg.all.length, ∃ r, Reg.ofIndex? n = some r ∧ r.index = n

/-- **The lowering of a function that was read from a text is documented**, by one worker and with
any settings else, for any target whose loads and stores are plain. -/
theorem documented_of_read {name text : String} (h : Text.read name text = .ok (f, a))
    (htarget : target.Plain) (hjobs : c.jobs = 1)
    (hlen : ∀ b x, (lowerNth f a target c b).result = .ok x → x.1.length < 2 ^ 32) :
    Documented f a target c := by
  obtain ⟨-, -, hnum, -⟩ := writable_of_read h
  refine ⟨ending_of_lowerFunc htarget hjobs hnum (fun id b hb => complete_of_read h hb)
    (fun b hb i hi v hv => index_lt_of_folded h hb hi hv) hlen, fun m _ d => m.logged c.log d,
    fun r => ?_, fun n hn => ?_⟩
  · exact ⟨List.idxOf_lt_length_iff.2 (Reg.mem_all r), Reg.ofIndex?_eq_some_iff.2 rfl⟩
  · have hr : Reg.ofIndex? n = some Reg.all[n] := List.getElem?_eq_getElem hn
    exact ⟨_, hr, Reg.ofIndex?_eq_some_iff.1 hr⟩

/-! ### A text that folds a value without a slot -/

/-- A text whose only virtual register is folded and has no slot. -/
def slotlessText : String := "%0: gpr32\nbb0:\n  inc [fold %0]\n  term ret"

/-- The instructions of that text. -/
def slotlessInsts : List Inst := [⟨"inc", [.folded ⟨0⟩], [], false⟩, ⟨"ret", [], [], true⟩]

/-- The function of that text. -/
def slotlessFunc : Func where
  name := "slotless"
  classes := #[.gpr32]
  blocks := #[⟨slotlessInsts⟩]

/-- The placement of that text: no register and no slot. -/
def slotlessHomes : Allocation where
  placements := #[{}]
  folded := [(⟨⟨0⟩, 0⟩, ⟨0⟩)]

/-- The lowering of that text is documented: its block is lowered, and the check fails. -/
theorem documented_of_read_slotless :
    Text.read "slotless" slotlessText = .ok (slotlessFunc, slotlessHomes) ∧
      Documented slotlessFunc slotlessHomes .x64 { verify := true } ∧
      (lowerFunc slotlessFunc slotlessHomes .x64 { verify := true }).result =
        .error (.fault (.leftSlotless ⟨⟨0⟩, 0⟩ ⟨0⟩ ⟨"inc", [.folded ⟨0⟩], [], false⟩)) := by
  have hread : Text.read "slotless" slotlessText = .ok (slotlessFunc, slotlessHomes) := by
    decide +kernel
  have hlen : ∀ b x,
      (lowerNth slotlessFunc slotlessHomes .x64 { verify := true } b).result = .ok x →
        x.1.length < 2 ^ 32 := by
    intro b x hx
    obtain ⟨body, -, -, hb, -⟩ := lowerBlock_eq_ok_iff.1 hx
    obtain ⟨hlt, -⟩ := Array.getElem?_eq_some_iff.1 (entry_eq_ok_iff.1 hb)
    obtain rfl : b = ⟨0⟩ := BlockId.index_inj (Nat.lt_one_iff.1 hlt)
    have hlowered :
        (lowerNth slotlessFunc slotlessHomes .x64 { verify := true } ⟨0⟩).result =
          .ok (slotlessInsts, { blocks := 1 }) := by decide +kernel
    obtain rfl := Except.ok.inj (hlowered.symm.trans hx)
    decide
  exact ⟨hread, documented_of_read hread Target.x64_plain rfl hlen, by decide +kernel⟩

end Residency
