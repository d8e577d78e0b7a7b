import Svm.Proof.Sbpf.Verifier
import Svm.Framework.Wp

/-!
# Steps of the interpreter

What each part of a step may do, as weakest preconditions. Most parts are `Local`:
they leave the pc and the call frames alone, and stop the run only with an error
that is neither invalid nor unsupported. The arms of a verified instruction then
follow the control flow of the code (`wp_exec`), and so does the step (`wp_step`).
-/

namespace Svm.Sbpf

open Machine Ebpf Run Interpreter Executable Verifier

variable {C α β : Type} {P : Prop} {err : EbpfError} {i : Nat} {o : Operand} {arm : Arm} {target : UInt64}
  {s : Interpreter C} {Q : α → Prop} {u : Unit}

/-! ## Arithmetic -/

/-- An outcome that is a value or an error of division. -/
def Divides (x : Except (Trap EbpfError) α) : Prop :=
  ∀ trap, x = .error trap → trap = .error .DivideByZero ∨ trap = .error .DivideOverflow

theorem divides_ok (a : α) : Divides (.ok a) := fun _ h => by cases h

theorem Divides.bind {f : α → Except (Trap EbpfError) β} (hx : Divides x)
    (hf : ∀ a, x = .ok a → Divides (f a)) : Divides (x >>= f) := by
  intro trap h
  cases x with
  | error trap' =>
    cases h
    exact hx trap rfl
  | ok a => exact hf a rfl trap h

theorem divides_throwDivideByZero (zero : Bool) : Divides (throwDivideByZero zero) := by
  intro trap h
  cases zero <;> cases h
  exact .inl rfl

theorem divides_throwDivideOverflow (overflow : Bool) : Divides (throwDivideOverflow overflow) := by
  intro trap h
  cases overflow <;> cases h
  exact .inr rfl

theorem of_throwDivideByZero (h : throwDivideByZero zero = .ok u) : zero = false := by
  cases zero
  · rfl
  · cases h

theorem of_throwDivideOverflow (h : throwDivideOverflow overflow = .ok u) : overflow = false := by
  cases overflow
  · rfl
  · cases h

theorem divides_unsigned [DecidableEq α] [OfNat α 0] {op : α → α → α} {a b : α} (h : b ≠ 0) :
    Divides (unsigned op a b) := by
  rw [unsigned, if_neg h]
  exact divides_ok _

theorem divides_signed [DecidableEq α] [OfNat α 0] [OfNat α 1] [Neg α] {min : α} {op : α → α → α} {a b : α}
    (h : b ≠ 0) (hmin : ¬ (a = min ∧ b = -1)) : Divides (signed min op a b) := by
  rw [signed, if_neg (not_or.mpr ⟨h, hmin⟩)]
  exact divides_ok _

section Division

/-- A zero divisor is thrown in the register form, and excluded in the other. -/
theorem ne_zero_of_throw [DecidableEq α] [OfNat α 0] {b : α}
    (h : throwDivideByZero (o == .reg && b == 0) = .ok u) (himm : o = .imm → b ≠ 0) : b ≠ 0 := by
  have := of_throwDivideByZero h
  cases o with
  | imm => exact himm rfl
  | reg => simpa using this

theorem divides_unsigned32 (himm : o = .imm → x.toUInt32 ≠ 0) : Divides (unsigned32 op o dst x) := by
  refine (divides_throwDivideByZero _).bind fun _ h => ?_
  exact (divides_unsigned (ne_zero_of_throw h himm)).bind fun _ _ => divides_ok _

theorem divides_unsigned64 (himm : o = .imm → x ≠ 0) : Divides (unsigned64 op o dst x) := by
  refine (divides_throwDivideByZero _).bind fun _ h => ?_
  exact divides_unsigned (ne_zero_of_throw h himm)

theorem divides_signed32 (himm : o = .imm → asI32 x ≠ 0) : Divides (signed32 op o dst x) := by
  refine (divides_throwDivideByZero _).bind fun _ h => (divides_throwDivideOverflow _).bind fun _ h' => ?_
  refine (divides_signed (ne_zero_of_throw h himm) ?_).bind fun _ _ => divides_ok _
  simpa using of_throwDivideOverflow h'

theorem divides_signed64 (himm : o = .imm → x.toInt64 ≠ 0) : Divides (signed64 op o dst x) := by
  refine (divides_throwDivideByZero _).bind fun _ h => (divides_throwDivideOverflow _).bind fun _ h' => ?_
  refine (divides_signed (ne_zero_of_throw h himm) ?_).bind fun _ _ => divides_ok _
  simpa using of_throwDivideOverflow h'

theorem divides_endian (hx : x = 16 ∨ x = 32 ∨ x = 64) : Divides (endian f g h dst x) := by
  rcases hx with rfl | rfl | rfl <;> exact divides_ok _

/-- The nonzero operand of 32 bits, as the divisions take it. -/
theorem ne_zero_of_toUInt32 (h : x.toUInt32 ≠ 0) : x ≠ 0 ∧ asI32 x ≠ 0 ∧ x.toInt64 ≠ 0 ∧ narrowImm o x ≠ 0 := by
  have hx : x ≠ 0 := by rintro rfl; exact h rfl
  refine ⟨hx, fun h' => h (congrArg Int32.toUInt32 h'), fun h' => hx (congrArg Int64.toUInt64 h'), ?_⟩
  cases o with
  | imm => exact fun h' => h ((UInt32.toUInt32_toUInt64 _).symm.trans (congrArg UInt64.toUInt32 h'))
  | reg => exact hx

theorem AluOp.divides_eval {op : AluOp} (hdiv : o = .imm → op.divides = true → x.toUInt32 ≠ 0)
    (hswap : op.swaps = true → x = 16 ∨ x = 32 ∨ x = 64) : Divides (op.eval v o dst x) := by
  have hne (h : op.divides = true) (himm : o = .imm) := ne_zero_of_toUInt32 (o := o) (hdiv himm h)
  cases op
  case div32 | mod32 | udiv32 | urem32 => exact divides_unsigned32 fun himm => hdiv himm rfl
  case div64 | mod64 => exact divides_unsigned64 fun himm => (hne rfl himm).1
  case udiv64 | urem64 => exact divides_unsigned64 fun himm => (hne rfl himm).2.2.2
  case sdiv32 | srem32 => exact divides_signed32 fun himm => (hne rfl himm).2.1
  case sdiv64 | srem64 => exact divides_signed64 fun himm => (hne rfl himm).2.2.1
  case le | be => exact divides_endian (hswap rfl)
  case sub32 | sub64 | mov32 =>
    simp only [eval]
    split <;> exact divides_ok _
  all_goals exact divides_ok _

end Division

/-! ## Local programs -/

/-- The pc and the call frames are the same. -/
structure Keeps (s s' : Interpreter C) : Prop where
  callFrames : s'.callFrames = s.callFrames
  callDepth : s'.vm.callDepth = s.vm.callDepth
  pc : s'.pc = s.pc

theorem Keeps.refl (s : Interpreter C) : Keeps s s := ⟨rfl, rfl, rfl⟩

theorem Keeps.trans (h : Keeps s s') (h' : Keeps s' s'') : Keeps s s'' :=
  ⟨h'.callFrames.trans h.callFrames, h'.callDepth.trans h.callDepth, h'.pc.trans h.pc⟩

theorem Keeps.returns (h : Keeps s s') : s'.returns = s.returns := by
  rw [Interpreter.returns, Interpreter.returns, h.callFrames, h.callDepth]

/-- How a step may stop: not with a panic or as invalid, and as unsupported only if `P`. -/
def Stops (P : Prop) : Halt → Interpreter C → Prop
  | .panic, _ => False
  | .done, s =>
    s.vm.programResult ≠ .error .InvalidInstruction ∧ (s.vm.programResult = .error .UnsupportedInstruction → P)

theorem Stops.mono (hP : P → P') (h : Stops P halt s) : Stops P' halt s := by
  cases halt with
  | panic => exact h
  | done => exact ⟨h.1, fun h' => hP (h.2 h')⟩

theorem stops_of_false (halt : Halt) (s : Interpreter C) (h : Stops False halt s) : Stops P halt s :=
  h.mono False.elim

/-- The program leaves the pc and the call frames alone, and returns a value in `Q`. -/
def Local (Q : α → Prop) (x : StepM C α) : Prop :=
  ∀ s, wp x (fun a s' => Q a ∧ Keeps s s') (Stops False) s

theorem local_pure (h : Q a) : Local Q (pure a : StepM C α) :=
  fun s => ⟨h, Keeps.refl s⟩

theorem Local.bind {P : α → Prop} {Q : β → Prop} (hx : Local P x)
    (hf : ∀ a, P a → Local Q (f a)) : Local Q (x >>= f) := by
  intro s
  refine wp_seq (hx s) ?_
  rintro a s1 ⟨ha, hs1⟩
  exact wp_mono (hf a ha s1) (fun b s2 h => ⟨h.1, hs1.trans h.2⟩) fun _ _ h => h

theorem Local.mono {P : α → Prop} (h : Local P x) (hPQ : ∀ a, P a → Q a) : Local Q x :=
  fun s => wp_mono (h s) (fun a _ ha => ⟨hPQ a ha.1, ha.2⟩) fun _ _ h => h

theorem local_orPanic (h : Q a) : Local Q (orPanic (some a) : StepM C α) := local_pure h

theorem stops_throwErr (hinvalid : err ≠ .InvalidInstruction) (hunsupported : err = .UnsupportedInstruction → P)
    (Q) (s) : wp (throwErr err : StepM C α) Q (Stops P) s :=
  ⟨fun h => hinvalid (Except.error.inj h), fun h => hunsupported (Except.error.inj h)⟩

theorem local_throwErr (hinvalid : err ≠ .InvalidInstruction)
    (hunsupported : err ≠ .UnsupportedInstruction) : Local Q (throwErr err : StepM C α) :=
  fun s => stops_throwErr hinvalid (fun h => hunsupported h) _ s

@[simp] theorem orPanic_some (a : α) : (orPanic (some a) : StepM C α) = pure a := rfl

theorem wp_readReg (h : i < 12) {Q : UInt64 → Interpreter C → Prop} : wp (readReg i) Q E s ↔ Q s.reg[i] s := by
  rw [readReg, wp_bind, wp_get, Vector.getElem?_eq_getElem h, orPanic_some, wp_pure]

theorem wp_writeReg (h : i < 12) {Q : Unit → Interpreter C → Prop} :
    wp (writeReg i value) Q E s ↔ Q () { s with reg := s.reg.set i value } := by
  rw [writeReg, dif_pos h, wp_modify]

theorem local_readReg (h : i < 12) : Local (fun _ => True) (readReg i : StepM C UInt64) :=
  fun s => (wp_readReg h).mpr ⟨trivial, Keeps.refl s⟩

theorem pc_set {reg : Registers} (h : i < 11) (value) :
    (reg.set i value)[11] = reg[11] := Vector.getElem_set_ne _ _ (by omega)

theorem local_writeReg (h : i < 11) (value) : Local (fun _ => True) (writeReg i value : StepM C Unit) :=
  fun _ => (wp_writeReg (by omega)).mpr ⟨trivial, rfl, rfl, pc_set h value⟩

theorem local_operand (h : insn.src.toNat ≤ 10) :
    Local (fun x => o = .imm → x = insn.imm.toUInt64) (operand o insn : StepM C UInt64) := by
  cases o with
  | imm => exact local_pure fun _ => rfl
  | reg => exact (local_readReg (by omega)).mono fun _ _ h => nomatch h

theorem local_ofOutcome (h : Divides x) : Local (fun _ => True) (ofOutcome x : StepM C α) := by
  cases x with
  | ok a => exact local_pure trivial
  | error trap =>
    rcases h trap rfl with rfl | rfl
    · exact local_throwErr (by decide) (by decide)
    · exact local_throwErr (by decide) (by decide)

theorem EbpfError.ne_of_isAccess (h : err.isAccess = true) :
    err ≠ .InvalidInstruction ∧ err ≠ .UnsupportedInstruction := by
  constructor <;> rintro rfl <;> cases h

theorem local_translateMemoryAccess {access : EStateM EbpfError C UInt64}
    (h : ∀ c err c', access.run c = .error err c' → err.isAccess = true) :
    Local (fun _ => True) (translateMemoryAccess access) := by
  intro s
  simp only [translateMemoryAccess, wp_bind, wp_get]
  split
  · exact ⟨trivial, rfl, rfl, rfl⟩
  · rename_i err context herr
    obtain ⟨hinvalid, hunsupported⟩ := EbpfError.ne_of_isAccess (h _ _ _ herr)
    simp only [wp_bind, wp_set]
    exact stops_throwErr hinvalid (fun h => hunsupported h) _ _

section Frames

theorem frames_orPanic (x : Option α) : Frames view (orPanic x) := by
  cases x with
  | none => exact frames_throw _
  | some a => exact frames_pure a

theorem frames_readReg (i : Nat) : Frames view (readReg i) := frames_get.bind fun _ => frames_orPanic _

theorem frames_operand (o) (insn : Insn) : Frames view (operand o insn) := by
  cases o with
  | imm => exact frames_pure _
  | reg => exact frames_readReg _

theorem frames_branch (eval) (o) (insn) (nextPc) : Frames view (branch eval o insn nextPc) :=
  (frames_readReg _).bind fun _ => (frames_operand o insn).bind fun _ => (frames_orPanic _).ite (frames_pure _)

end Frames

/-! ## Transfers -/

variable {exe : Executable C} {memory : Memory C} {s' : Interpreter C} {insn : Insn} {nextPc : UInt64}

/-- There is a frame for one more call. -/
structure Ready (exe : Executable C) (s : Interpreter C) : Prop where
  callDepth_lt : s.vm.callDepth.toNat < exe.config.maxCallDepth.toNat
  maxCallDepth_le : exe.config.maxCallDepth.toNat ≤ s.callFrames.length

theorem Ready.keeps (h : Ready exe s) (hs : Keeps s s') : Ready exe s' := by
  refine ⟨?_, ?_⟩
  · rw [hs.callDepth]
    exact h.callDepth_lt
  · rw [hs.callFrames]
    exact h.maxCallDepth_le

/-- Control has gone from `s` to `pc`, and the calls that are open are those of `s'`. -/
def Moves (exe : Executable C) (s : Interpreter C) (pc : UInt64) (s' : Interpreter C) : Prop :=
  (∃ t, Control.Step exe.code t s.control ⟨pc.toNat, s'.returns⟩) ∧ Ready exe s'

/-- The instruction at the pc, and the state in which its arm is performed. -/
structure Fetched (exe : Executable C) (s : Interpreter C) (insn : Insn) (nextPc : UInt64) (arm : Arm) : Prop where
  ready : Ready exe s
  armAt : exe.armAt s.pc.toNat = some (insn, arm)
  nextPc_eq : nextPc.toNat = s.pc.toNat + 1
  due_le : s.vm.dueInsnCount ≤ s.vm.previousInstructionMeter

theorem Executable.insnCount_lt (exe : Executable C) : exe.insnCount < 2 ^ 60 := by
  have := exe.text_lt
  simp only [insnCount, INSN_SIZE]
  omega

theorem lt_insnCount_of_armAt (hverify : verify exe.text exe.sbpfVersion = .ok ())
    (h : exe.armAt p = some (insn, arm)) : p < exe.insnCount := by
  have hlt := lt_of_getInsn (armAt_eq_some.mp h).1
  have hlen := (verify_ok hverify).1
  simp only [insnCount, INSN_SIZE] at hlt hlen ⊢
  omega

theorem not_wide_of_armAt (h : exe.armAt p = some (insn, arm)) (harm : arm ≠ .ldDwImm) : p ∉ exe.code.wide := by
  rintro ⟨insn', h'⟩
  rw [h] at h'
  cases h'
  exact harm rfl

section Arms

theorem Fetched.moves_jump (h : Fetched exe s insn nextPc arm)
    (ht : target.toNat ∈ exe.code.jumps s.pc.toNat) (hs : Keeps s s') : Moves exe s target s' := by
  refine ⟨⟨.jump, ?_⟩, h.ready.keeps hs⟩
  rw [hs.returns]
  exact .jump ht

variable (hverify : verify exe.text exe.sbpfVersion = .ok ())
include hverify

theorem Fetched.lt (h : Fetched exe s insn nextPc arm) : s.pc.toNat < exe.insnCount ∧ s.pc.toNat < 2 ^ 60 := by
  have hlt := lt_insnCount_of_armAt hverify h.armAt
  exact ⟨hlt, hlt.trans exe.insnCount_lt⟩

theorem Fetched.moves_next (h : Fetched exe s insn nextPc arm) (harm : arm ≠ .ldDwImm) (hs : Keeps s s') :
    Moves exe s nextPc s' := by
  refine ⟨⟨.next, ?_⟩, h.ready.keeps hs⟩
  rw [hs.returns, h.nextPc_eq]
  exact .next (h.lt hverify).1 (not_wide_of_armAt h.armAt harm)

/-- The jump of a verified instruction does not overflow, and goes to one of the targets
in the code. -/
theorem Fetched.jumpTarget_eq (h : Fetched exe s insn nextPc arm) (hjumps : arm.jumps = true) :
    ∃ target, jumpTarget nextPc insn = some target ∧ target.toNat ∈ exe.code.jumps s.pc.toNat := by
  obtain ⟨check, hverified, hrelies⟩ := verified_of_armAt hverify h.armAt
  obtain rfl := Arm.eq_jmpOffset_of_relies hrelies hjumps
  obtain ⟨t, ht, hlt, -⟩ := hverified.holds
  have hcount : t < 2 ^ 60 := hlt.trans exe.insnCount_lt
  have hpc := (h.lt hverify).2
  have hnext := toInt_toInt64 (by rw [h.nextPc_eq]; omega)
  rw [h.nextPc_eq] at hnext
  have htarget : t = nextPc.toInt64.toInt + insn.off.toInt := by
    omega
  refine ⟨(Int64.ofInt t).toUInt64, ?_, ?_⟩
  · rw [jumpTarget, iCheckedAdd_eq, ← htarget]
    · rfl
    · constructor <;> simp only [iMin, iMax] <;> omega
  · rw [toNat_ofInt (by omega)]
    exact ⟨insn, arm, h.armAt, hjumps, ht⟩

end Arms

/-! ## Arms without calls -/

theorem wp_of_local {Q : UInt64 → Prop} (h : Local Q x)
    (hQ : ∀ next s', Q next → Keeps s s' → Moves exe s next s') : wp x (Moves exe s) (Stops False) s :=
  wp_mono (h s) (fun next s' h => hQ next s' h.1 h.2) fun _ _ h => h

variable (hsrc : insn.src.toNat ≤ 10)

include hsrc

variable (hdst : insn.dst.toNat ≤ 10)

include hdst

theorem local_load : Local (· = nextPc) (exec exe memory insn nextPc (.load w)) :=
  (local_readReg (by omega)).bind fun _ _ =>
    (local_translateMemoryAccess fun _ _ _ => memory.isAccess_of_load).bind fun _ _ =>
      (local_writeReg (by omega) _).bind fun _ _ => local_pure rfl

theorem local_store : Local (· = nextPc) (exec exe memory insn nextPc (.store w o)) :=
  (local_readReg (by omega)).bind fun _ _ => (local_operand hsrc).bind fun _ _ =>
    (local_translateMemoryAccess fun _ _ _ => memory.isAccess_of_store).bind fun _ _ => local_pure rfl

theorem local_alu (hdiv : o = .imm → op.divides = true → insn.imm.toUInt64.toUInt32 ≠ 0)
    (hswap : op.swaps = true → o = .imm ∧ (insn.imm = 16 ∨ insn.imm = 32 ∨ insn.imm = 64)) :
    Local (· = nextPc) (exec exe memory insn nextPc (.alu op o)) := by
  refine (local_readReg (by omega)).bind fun dst _ => (local_operand hsrc).bind fun x hx => ?_
  refine (local_ofOutcome (AluOp.divides_eval (fun himm h => ?_) fun h => ?_)).bind fun _ _ =>
    (local_writeReg (by omega) _).bind fun _ _ => local_pure rfl
  · rw [hx himm]
    exact hdiv himm h
  · obtain ⟨himm, hwidth⟩ := hswap h
    rw [hx himm]
    rcases hwidth with h | h | h <;> rw [h] <;> decide

theorem local_branch (ht : jumpTarget nextPc insn = some target) :
    Local (fun next => next = nextPc ∨ next = target) (branch eval o insn nextPc : StepM C UInt64) := by
  refine (local_readReg (by omega)).bind fun dst _ => (local_operand hsrc).bind fun x _ => ?_
  split
  · rw [ht]
    exact local_orPanic (.inr rfl)
  · exact local_pure (.inl rfl)

/-! ## Calls -/

omit hsrc

omit hdst

/-- A call is open that returns behind the pc. -/
structure Pushed (exe : Executable C) (s s' : Interpreter C) : Prop where
  returns : s'.returns = (s.pc.toNat + 1) :: s.returns
  ready : Ready exe s'

theorem wp_pushFrame (h : Ready exe s) (hpc : s.pc.toNat < 2 ^ 60) :
    wp (pushFrame exe) (fun _ => Pushed exe s) (Stops False) s := by
  have hlt : s.vm.callDepth.toNat < s.callFrames.length := h.callDepth_lt.trans_le h.maxCallDepth_le
  have hmax := exe.config.maxCallDepth.toNat_lt
  have hdepth := h.callDepth_lt
  obtain ⟨targetPc, htarget, htarget'⟩ := U64.checkedAdd_one (a := s.reg[11]) (show s.pc.toNat + 1 < 2 ^ 64 by omega)
  obtain ⟨callDepth, hcall, hcall'⟩ := U64.checkedAdd_one (a := s.vm.callDepth) (by omega)
  have pushed {s' : Interpreter C} (hne : callDepth ≠ exe.config.maxCallDepth)
      (hframes : s'.callFrames =
        s.callFrames.set s.vm.callDepth.toNat ⟨scratchRegisters s.reg, s.reg[10], targetPc⟩)
      (hvm : s'.vm.callDepth = callDepth) : Pushed exe s s' := by
    refine ⟨?_, ?_, ?_⟩
    · have hdepth : s'.vm.callDepth.toNat = s.vm.callDepth.toNat + 1 := by rw [hvm, hcall']
      simp [returns, hframes, hdepth, List.take_add_one, List.take_set_of_le, hlt, htarget']
      rfl
    · have : callDepth.toNat ≠ exe.config.maxCallDepth.toNat := fun h => hne (UInt64.toNat_inj.mp h)
      rw [hvm]
      omega
    · rw [hframes, List.length_set]
      exact h.maxCallDepth_le
  simp only [pushFrame, wp_bind, wp_get, if_pos hlt, htarget, hcall, orPanic_some, wp_pure, wp_set]
  split
  · exact stops_throwErr (by decide) (by simp) _ _
  · rename_i hne
    split
    · have hframe : U64.checkedMul exe.config.stackFrameSize
          (if exe.sbpfVersion.stackFrameGaps && exe.config.enableStackFrameGaps then 2 else 1) =
          some (exe.config.stackFrameSize *
            (if exe.sbpfVersion.stackFrameGaps && exe.config.enableStackFrameGaps then 2 else 1)) := by
        refine U64.checkedMul_of_lt ?_
        have hsize := exe.config.stackSize_lt
        have : exe.config.stackFrameSize.toNat ≤
            exe.config.stackFrameSize.toNat * exe.config.maxCallDepth.toNat := Nat.le_mul_of_pos_right _ (by omega)
        split <;> simp only [UInt64.reduceToNat] <;> omega
      rw [hframe]
      exact pushed hne rfl rfl
    · exact pushed hne rfl rfl

/-- The calls that `CALL_REG` and `CALL_IMM` make are calls of the code. -/
theorem Fetched.moves_call (hverify : verify exe.text exe.sbpfVersion = .ok ())
    (h : Fetched exe s insn nextPc arm) (harm : arm ≠ .ldDwImm) (ht : isPcInProgram exe.text target = true)
    (hs : Pushed exe s s') : Moves exe s target s' := by
  refine ⟨⟨.call, ?_⟩, hs.ready⟩
  rw [hs.returns]
  refine .call (h.lt hverify).1 (not_wide_of_armAt h.armAt harm) ?_
  have hlen := exe.text_lt
  have hin := of_decide_eq_true ht
  simp only [U64.toNat_satMul, U64.toNat_satAdd, UInt64.reduceToNat] at hin
  simp only [code, insnCount, INSN_SIZE]
  omega

theorem wp_checkPc {P : Interpreter C → Prop} (h : P s) :
    wp (checkPc exe target) (fun next s' => next = target ∧ isPcInProgram exe.text target = true ∧ P s')
      (Stops False) s := by
  rw [checkPc]
  split
  · rename_i hin
    exact ⟨rfl, hin, h⟩
  · exact stops_throwErr (by decide) (by simp) _ _

theorem wp_invokeFunction (exe) (function) (h : s.vm.dueInsnCount ≤ s.vm.previousInstructionMeter) :
    wp (invokeFunction exe function)
      (fun _ s' => Keeps s s' ∧ ∀ err, s'.vm.programResult = .error err → ∃ message, err = .SyscallError message)
      (Stops False) s := by
  have hresult (r : Except String UInt64) (err : EbpfError) (h : r.mapError .SyscallError = .error err) :
      ∃ message, err = .SyscallError message := by
    cases r with
    | ok => cases h
    | error message =>
      cases h
      exact ⟨message, rfl⟩
  simp only [invokeFunction]
  split
  · simp only [wp_get, wp_bind, U64.checkedSub_of_le h]
    exact ⟨⟨rfl, rfl, rfl⟩, hresult _⟩
  · exact ⟨⟨rfl, rfl, rfl⟩, hresult _⟩

theorem wp_dispatchSyscall (h : s.vm.dueInsnCount ≤ s.vm.previousInstructionMeter) :
    wp (dispatchSyscall exe function) (fun result s' => Keeps s s' ∧ s'.vm.programResult = result ∧
        ∀ err, result = .error err → ∃ message, err = .SyscallError message) (Stops False) s := by
  simp only [dispatchSyscall, wp_bind, wp_get, U64.checkedSub_of_le h, orPanic_some, wp_pure, wp_set]
  have hsub : s.vm.previousInstructionMeter - s.vm.dueInsnCount ≤ s.vm.previousInstructionMeter := by
    rw [UInt64.le_iff_toNat_le, UInt64.toNat_sub_of_le _ _ h]
    omega
  refine wp_mono (wp_invokeFunction exe function ?_) ?_ fun _ _ h => h
  · exact hsub
  · rintro _ s' ⟨hkeeps, herr⟩
    exact ⟨⟨hkeeps.callFrames, hkeeps.callDepth, hkeeps.pc⟩, rfl, herr⟩

theorem wp_callExternal (h : s.vm.dueInsnCount ≤ s.vm.previousInstructionMeter) :
    wp (callExternal exe insn) (fun resolved s' => Keeps s s' ∧ (resolved = false → exe.NoSyscall insn))
      (Stops False) s := by
  simp only [callExternal]
  split
  · split
    · rename_i hnone
      exact ⟨Keeps.refl s, fun _ _ => hnone⟩
    · refine wp_seq (wp_dispatchSyscall h) ?_
      rintro result s1 ⟨hkeeps, hresult, herr⟩
      split
      · refine wp_seq (local_writeReg (by omega) _ s1) ?_
        rintro _ s2 ⟨-, hkeeps'⟩
        exact ⟨hkeeps.trans hkeeps', fun h => nomatch h⟩
      · rename_i err
        obtain ⟨message, rfl⟩ := herr err rfl
        refine ⟨?_, fun h => ?_⟩
        · rw [hresult]
          exact fun h => nomatch h
        · rw [hresult] at h
          cases h
  · rename_i hcond
    refine ⟨Keeps.refl s, fun _ hsys => absurd ?_ hcond⟩
    rcases hsys with h | h <;> simp [h]

theorem wp_callInternal (h : Ready exe s) (hpc : s.pc.toNat < 2 ^ 60) : wp (callInternal exe insn nextPc)
      (fun target s' => match target with
        | some target => isPcInProgram exe.text target = true ∧ Pushed exe s s'
        | none => s' = s ∧ exe.NoFunction insn nextPc) (Stops False) s := by
  simp only [callInternal, Executable.NoFunction]
  split
  · split
    · rename_i hin
      refine wp_seq (wp_pushFrame h hpc) (fun _ s' hs' => ?_)
      rw [Bool.and_eq_true] at hin
      exact ⟨hin.1, hs'⟩
    · rename_i hin
      refine ⟨rfl, fun hsrc => ?_⟩
      simpa [hsrc] using hin
  · split
    · rename_i hnone
      exact ⟨rfl, hnone⟩
    · refine wp_seq (wp_pushFrame h hpc) (fun _ s' hs' => ?_)
      refine wp_seq (wp_checkPc hs') ?_
      rintro next s'' ⟨rfl, hin, hs''⟩
      exact ⟨hin, hs''⟩

/-! ## The arms -/

section Exec

variable (hverify : verify exe.text exe.sbpfVersion = .ok ())
include hverify

theorem wp_callImm (h : Fetched exe s insn nextPc .callImm) :
    wp (callImm exe insn nextPc) (Moves exe s) (Stops (exe.Unresolved s)) s := by
  rw [callImm, wp_bind]
  refine wp_mono (wp_callExternal h.due_le) ?_ stops_of_false
  rintro resolved s1 ⟨hs1, hsyscall⟩
  rw [wp_bind]
  have hpc := (h.lt hverify).2
  refine wp_mono (wp_callInternal (h.ready.keeps hs1) (by rw [hs1.pc]; exact hpc)) ?_ stops_of_false
  rintro target s2 h2
  cases target with
  | some target =>
    obtain ⟨hin, hpushed⟩ := h2
    refine h.moves_call hverify (by decide) hin ⟨?_, hpushed.ready⟩
    rw [hpushed.returns, hs1.pc, hs1.returns]
  | none =>
    obtain ⟨rfl, hfunction⟩ := h2
    cases resolved with
    | true => exact h.moves_next hverify (by decide) hs1
    | false =>
      refine stops_throwErr (by decide) (fun _ => ⟨insn, h.armAt, hsyscall rfl, ?_⟩) _ _
      have hnext : nextPc = s.pc + 1 := by
        refine UInt64.toNat_inj.mp ?_
        rw [h.nextPc_eq, UInt64.toNat_add, UInt64.toNat_one]
        omega
      rwa [← hnext]

theorem wp_callReg (h : Fetched exe s insn nextPc .callReg) :
    wp (callReg exe insn) (Moves exe s) (Stops False) s := by
  obtain ⟨check, hverified, hrelies⟩ := verified_of_armAt hverify h.armAt
  obtain rfl : check = .callxRegister := by
    simp only [Arm.relies, Bool.and_eq_true, beq_iff_eq] at hrelies
    exact hrelies.2
  have hsrc := hverified.src_le
  have hdst := hverified.dst_le
  obtain ⟨hnonneg, hlt⟩ := hverified.holds
  have read : Local (fun _ => True) (callxTarget exe insn) := by
    rw [callxTarget]
    split
    · exact local_readReg (by omega)
    · rename_i hsrcReg
      split
      · exact local_readReg (by omega)
      · rename_i hdstReg
        rw [callxReg, if_neg hsrcReg, if_neg hdstReg] at hnonneg hlt
        exact local_readReg (by have := toNat_toUInt64 hnonneg; omega)
  rw [callReg]
  refine wp_seq (read s) ?_
  rintro targetPc s1 ⟨-, hs1⟩
  rw [wp_bind]
  have hpc := (h.lt hverify).2
  refine wp_mono (wp_pushFrame (h.ready.keeps hs1) (by rw [hs1.pc]; exact hpc)) ?_ fun _ _ h => h
  rintro _ s2 hpushed
  refine wp_mono (wp_checkPc hpushed) ?_ fun _ _ h => h
  rintro next s3 ⟨rfl, hin, hpushed⟩
  refine h.moves_call hverify (by decide) hin ⟨?_, hpushed.ready⟩
  rw [hpushed.returns, hs1.pc, hs1.returns]

omit hverify in
theorem wp_exit (h : Fetched exe s insn nextPc .exit) : wp (exit exe) (Moves exe s) (Stops False) s := by
  simp only [exit, wp_bind, wp_get, wp_ite]
  split
  · split
    · exact stops_throwErr (by decide) (by simp) _ _
    · constructor <;> rintro ⟨⟩
  · rename_i hdepth
    have hpos : s.vm.callDepth.toNat ≠ 0 := fun h => hdepth (UInt64.toNat_inj.mp h)
    have hle : 1 ≤ s.vm.callDepth := by
      rw [UInt64.le_iff_toNat_le, UInt64.toNat_one]
      omega
    have hsub := UInt64.toNat_sub_of_le _ _ hle
    rw [UInt64.toNat_one] at hsub
    have hlt := h.ready.callDepth_lt
    have hlen := h.ready.maxCallDepth_le
    have hframe : (s.vm.callDepth - 1).toNat < s.callFrames.length := by omega
    simp only [U64.checkedSub_of_le hle, List.getElem?_eq_getElem hframe, orPanic_some, wp_pure]
    refine ⟨⟨.ret, ?_⟩, ?_, hlen⟩
    · have hreturns : s.returns = s.callFrames[(s.vm.callDepth - 1).toNat].targetPc.toNat ::
          ((s.callFrames.take (s.vm.callDepth - 1).toNat).map (·.targetPc.toNat)).reverse := by
        have htake : s.vm.callDepth.toNat = (s.vm.callDepth - 1).toNat + 1 := by omega
        simp only [returns, htake, List.take_add_one, List.getElem?_eq_getElem hframe, Option.toList_some,
          List.map_append, List.map_cons, List.map_nil, List.reverse_append, List.reverse_cons, List.reverse_nil,
          List.nil_append, List.singleton_append]
      rw [Interpreter.control, hreturns]
      exact .ret
    · show (s.vm.callDepth - 1).toNat < _
      omega

theorem wp_ldDwImm (h : Fetched exe s insn nextPc .ldDwImm) :
    wp (exec exe memory insn nextPc .ldDwImm) (Moves exe s) (Stops False) s := by
  obtain ⟨check, hverified, hrelies⟩ := verified_of_armAt hverify h.armAt
  obtain rfl := Arm.eq_loadDw_of_relies hrelies
  obtain ⟨-, second, hsecond, -⟩ := hverified.holds
  obtain ⟨-, i, hi, -⟩ := getInsn_eq_some hsecond
  obtain ⟨hptr, -⟩ := getInsn_eq_some hverified.insn_eq
  have hdst := hverified.dst_le
  have hpc := (h.lt hverify).2
  obtain ⟨pc, hpc', -⟩ := U64.checkedAdd_one (a := s.pc) (by omega)
  obtain ⟨next, hnext, hnext'⟩ := U64.checkedAdd_one (by rw [h.nextPc_eq]; omega)
  have himm : ∃ imm, augmentLddw exe.text insn = some imm := by
    rw [augmentLddw, hptr, mul_comm (s.pc.toNat + 1), hi]
    exact ⟨_, rfl⟩
  obtain ⟨imm, himm⟩ := himm
  have hreg : (s.reg.set insn.dst.toNat imm.toUInt64)[11] = s.pc := pc_set (by omega) _
  simp only [exec, himm, orPanic_some, wp_bind, wp_pure]
  rw [wp_writeReg (by omega), wp_bind, wp_readReg (by omega)]
  simp only [hreg, hpc', hnext]
  refine ⟨⟨.next, ?_⟩, h.ready.callDepth_lt, h.ready.maxCallDepth_le⟩
  rw [hnext', h.nextPc_eq]
  exact .nextWide ⟨insn, h.armAt⟩

/-- The arm of a verified instruction follows the control flow of the code. -/
theorem wp_exec (h : Fetched exe s insn nextPc arm) :
    wp (exec exe memory insn nextPc arm) (Moves exe s) (Stops (exe.Unresolved s)) s := by
  obtain ⟨check, hverified, hrelies⟩ := verified_of_armAt hverify h.armAt
  have hsrc := hverified.src_le
  have hdst := hverified.dst_le
  have hnext (harm : arm ≠ .ldDwImm) {x : StepM C UInt64} (hx : Local (· = nextPc) x) :
      wp x (Moves exe s) (Stops (exe.Unresolved s)) s := by
    refine wp_mono (wp_of_local hx ?_) (fun _ _ h => h) stops_of_false
    rintro next s' rfl hs'
    exact h.moves_next hverify harm hs'
  have hjump (hjumps : arm.jumps = true) (hne : arm ≠ .ldDwImm) {x : StepM C UInt64}
      (hx : ∀ target, jumpTarget nextPc insn = some target → Local (fun next => next = nextPc ∨ next = target) x) :
      wp x (Moves exe s) (Stops (exe.Unresolved s)) s := by
    obtain ⟨target, htarget, hmem⟩ := h.jumpTarget_eq hverify hjumps
    refine wp_mono (wp_of_local (hx target htarget) ?_) (fun _ _ h => h) stops_of_false
    rintro next s' (rfl | rfl) hs'
    · exact h.moves_next hverify hne hs'
    · exact h.moves_jump hmem hs'
  cases arm with
  | ldDwImm => exact wp_mono (wp_ldDwImm hverify h) (fun _ _ h => h) stops_of_false
  | load w => exact hnext (by simp) (local_load hsrc hdst)
  | store w o => exact hnext (by simp) (local_store hsrc hdst)
  | alu op o =>
    refine hnext (by simp) (local_alu hsrc hdst (fun himm hdiv => ?_) fun hswap => ?_)
    · subst himm
      simp only [Arm.relies, hdiv, Bool.not_true, Bool.false_or, Bool.and_eq_true, beq_iff_eq] at hrelies
      obtain rfl := hrelies.2.1
      obtain ⟨-, i, -, hi⟩ := getInsn_eq_some hverified.insn_eq
      have hne : insn.imm ≠ 0 := hverified.holds
      rw [hi, toUInt32_toInt64]
      rintro h0
      exact hne (by rw [hi, show i = 0 from congrArg UInt32.toInt32 h0]; rfl)
    · cases o with
      | imm =>
        simp only [Arm.relies, hswap, Bool.not_true, Bool.false_or, Bool.and_eq_true, beq_iff_eq] at hrelies
        obtain rfl := hrelies.2.2
        exact ⟨rfl, hverified.holds⟩
      | reg => simp [Arm.relies, hswap] at hrelies
  | ja =>
    refine hjump rfl (by simp) fun target htarget => ?_
    rw [exec, htarget]
    exact local_orPanic (.inr rfl)
  | jmp32 c o | jmp64 c o => exact hjump rfl (by simp) fun target htarget => local_branch hsrc hdst htarget
  | callReg => exact wp_mono (wp_callReg hverify h) (fun _ _ h => h) stops_of_false
  | callImm => exact wp_callImm hverify h
  | exit => exact wp_mono (wp_exit h) (fun _ _ h => h) stops_of_false

end Exec

end Svm.Sbpf
