import Svm.Impl.Sbpf.Verifier
import Svm.Impl.Sbpf.Interpreter
import Svm.Spec.Sbpf.Soundness

/-!
# What the verifier guarantees

Every slot of a program that passes is an instruction whose checks hold or the
second slot of an `LDDW` (`verify_slot`). The match of the verifier and that of
the interpreter agree: for each opcode of a version the interpreter has an arm,
and the check made is the one this arm relies on (`selectArm_of_selectCheck`). So
the code of a verified executable is well formed (`wellFormed_code`).
-/

namespace Svm.Sbpf

open Ebpf Run Executable

variable {insn : Insn} {p : Nat}

/-! ## Reading -/

theorem getInsn_of_lt (prog) (h : (p + 1) * INSN_SIZE ≤ prog.length) :
    ∃ insn, getInsn prog p = some insn := by
  simp only [INSN_SIZE] at h
  have get (i : Nat) (hi : i < 8) : ∃ b, prog[8 * p + i]? = some b :=
    ⟨_, List.getElem?_eq_getElem (by omega)⟩
  obtain ⟨b0, h₀⟩ := get 0 (by omega)
  obtain ⟨b1, h1⟩ := get 1 (by omega)
  obtain ⟨b2, h2⟩ := get 2 (by omega)
  obtain ⟨b3, h3⟩ := get 3 (by omega)
  obtain ⟨b4, h4⟩ := get 4 (by omega)
  obtain ⟨b5, h5⟩ := get 5 (by omega)
  obtain ⟨b6, h6⟩ := get 6 (by omega)
  obtain ⟨b7, h7⟩ := get 7 (by omega)
  rw [add_zero] at h₀
  simp [getInsn, readI16, readI32, INSN_SIZE, h₀, h1, h2, h3, h4, h5, h6, h7]

theorem getInsn_eq_some (h : getInsn prog p = some insn) :
    insn.ptr = p ∧ ∃ i, readI32 prog (INSN_SIZE * p + 4) = some i ∧ insn.imm = i.toInt64 := by
  simp only [getInsn, Option.bind_eq_bind, Option.bind_eq_some_iff, Option.pure_def, Option.some.injEq] at h
  obtain ⟨_, _, _, _, _, _, i, hi, rfl⟩ := h
  exact ⟨rfl, i, hi, rfl⟩

theorem lt_of_getInsn (h : getInsn prog p = some insn) : INSN_SIZE * p < prog.length := by
  simp only [getInsn, Option.bind_eq_bind, Option.bind_eq_some_iff] at h
  obtain ⟨_, h, _⟩ := h
  exact (getElem?_eq_some_iff.mp h).1

/-! ## One instruction -/

namespace Verifier

variable {prog : List UInt8} {v : SBPFVersion} {q : Nat} {check : Check}

theorem orPanic_ok : orPanic o = .ok a ↔ o = some a := by
  cases o <;> simp [orPanic]

/-- What a check that passes says of the instruction at `p`. -/
def Check.Holds (prog : List UInt8) (v : SBPFVersion) (p : Nat) (insn : Insn) : Check → Prop
  | .loadDw =>
    (p + 1) * INSN_SIZE < prog.length ∧ ∃ second, getInsn prog (p + 1) = some second ∧ second.opc = 0
  | .immNonzero => insn.imm ≠ 0
  | .immEndian => insn.imm = 16 ∨ insn.imm = 32 ∨ insn.imm = 64
  | .jmpOffset =>
    ∃ t : Nat, (t : Int) = p + 1 + insn.off.toInt ∧ t < prog.length / INSN_SIZE ∧
      ∃ target, getInsn prog t = some target ∧ target.opc ≠ 0
  | .callxRegister => 0 ≤ callxReg insn v ∧ callxReg insn v < 10
  | _ => True

/-- The slots an instruction takes. -/
def Check.slots : Check → Nat
  | .loadDw => 2
  | _ => 1

theorem checkLoadDw_ok (h : checkLoadDw prog p = .ok ()) : Check.Holds prog v p insn .loadDw := by
  simp only [checkLoadDw] at h
  split at h
  · cases h
  · rename_i hlt
    obtain ⟨second, hget, h⟩ := except_inv h
    split at h
    · cases h
    · rename_i hopc
      exact ⟨Nat.lt_of_not_le hlt, second, orPanic_ok.mp hget, not_not.mp hopc⟩

theorem checkJmpOffset_ok (hinsn : getInsn prog p = some insn) (h : checkJmpOffset prog p = .ok ()) :
    Check.Holds prog v p insn .jmpOffset := by
  simp only [checkJmpOffset, hinsn, orPanic, except_bind_ok, Except.ok.injEq, exists_eq_left'] at h
  split at h
  · cases h
  · obtain ⟨target, hget, h⟩ := except_inv h
    split at h
    · cases h
    · rename_i hopc
      exact ⟨_, Int.toNat_of_nonneg (by omega), by omega, target, orPanic_ok.mp hget, hopc⟩

theorem Check.run_ok (hinsn : getInsn prog p = some insn) (h : check.run prog v insn p = .ok q) :
    check.Holds prog v p insn ∧ q + 1 = p + check.slots := by
  cases check <;> simp only [Check.run, except_bind_ok, pure, Except.pure, Except.ok.injEq] at h
  case pass => exact ⟨trivial, by rw [h]; rfl⟩
  case store => exact ⟨trivial, by rw [h]; rfl⟩
  case loadDw =>
    obtain ⟨_, h, rfl⟩ := h
    exact ⟨checkLoadDw_ok h, rfl⟩
  case immShift =>
    obtain ⟨_, -, rfl⟩ := h
    exact ⟨trivial, rfl⟩
  case immAligned =>
    obtain ⟨_, -, rfl⟩ := h
    exact ⟨trivial, rfl⟩
  case immNonzero =>
    obtain ⟨_, h, rfl⟩ := h
    refine ⟨fun h0 => ?_, rfl⟩
    rw [checkImmNonzero, if_pos h0] at h
    cases h
  case immEndian =>
    obtain ⟨_, h, rfl⟩ := h
    refine ⟨?_, rfl⟩
    by_contra h0
    simp only [checkImmEndian, if_neg (show ¬ (insn.imm = 16 ∨ _) from h0)] at h
    cases h
  case jmpOffset =>
    obtain ⟨_, h, rfl⟩ := h
    exact ⟨checkJmpOffset_ok hinsn h, rfl⟩
  case callxRegister =>
    obtain ⟨_, h, rfl⟩ := h
    refine ⟨?_, rfl⟩
    by_contra h0
    simp only [checkCallxRegister, if_neg (show ¬ (0 ≤ callxReg insn v ∧ _) from h0)] at h
    cases h

theorem checkRegisters_ok (h : checkRegisters insn store p v = .ok ()) :
    insn.src.toNat ≤ 10 ∧ insn.dst.toNat ≤ 10 := by
  simp only [checkRegisters] at h
  split at h
  · cases h
  · rename_i hsrc
    refine ⟨UInt8.not_lt.mp hsrc, ?_⟩
    split at h
    · rename_i hdst
      exact (UInt8.le_iff_toNat_le.mp hdst).trans (by decide)
    · split at h
      · rename_i hdst
        rw [hdst]
        decide
      · cases h

/-- The instruction at `p` is one of the version's, and its checks hold. -/
structure Verified (prog : List UInt8) (v : SBPFVersion) (p : Nat) (insn : Insn) (check : Check) : Prop where
  insn_eq : getInsn prog p = some insn
  check_eq : selectCheck v insn = some check
  src_le : insn.src.toNat ≤ 10
  dst_le : insn.dst.toNat ≤ 10
  holds : check.Holds prog v p insn

theorem verifyInsn_ok (h : verifyInsn prog v p = .ok q) :
    ∃ insn check, Verified prog v p insn check ∧ q = p + check.slots := by
  obtain ⟨insn, hinsn, h⟩ := except_inv h
  have hinsn := orPanic_ok.mp hinsn
  split at h
  · cases h
  · rename_i check hcheck
    obtain ⟨r, hr, h⟩ := except_inv h
    obtain ⟨_, hregs, h⟩ := except_inv h
    cases h
    obtain ⟨hholds, hslots⟩ := Check.run_ok hinsn hr
    obtain ⟨hsrc, hdst⟩ := checkRegisters_ok hregs
    exact ⟨insn, check, ⟨hinsn, hcheck, hsrc, hdst, hholds⟩, hslots⟩

/-! ## The pass -/

theorem verifyFrom_next (h : (p + 1) * INSN_SIZE ≤ prog.length) (hinsn : verifyInsn prog v p = .ok q) :
    verifyFrom prog v p = verifyFrom prog v q := by
  rw [verifyFrom, if_pos h]
  split
  · rename_i herr
    rw [hinsn] at herr
    cases herr
  · rename_i next hnext
    rw [hinsn] at hnext
    cases hnext
    rfl

theorem verifyFrom_end (h : ¬ (p + 1) * INSN_SIZE ≤ prog.length) : verifyFrom prog v p = .ok p := by
  rw [verifyFrom, if_neg h]

/-- The pass leaves no slot out: each belongs to an instruction that it has checked. -/
theorem verifyFrom_ok (h : verifyFrom prog v p = .ok q) (hp : p ≤ k) (hk : k < q) :
    ∃ i r, verifyInsn prog v i = .ok r ∧ i ≤ k ∧ k < r := by
  induction p using verifyFrom.induct prog v with
  | case1 p hlen err herr =>
    rw [verifyFrom, if_pos hlen] at h
    split at h
    · cases h
    · rename_i hnext
      rw [herr] at hnext
      cases hnext
  | case2 p hlen next hnext ih =>
    rw [verifyFrom_next hlen hnext] at h
    by_cases hle : next ≤ k
    · exact ih h hle
    · exact ⟨p, next, hnext, hp, Nat.lt_of_not_le hle⟩
  | case3 p hlen =>
    rw [verifyFrom_end hlen] at h
    cases h
    omega

theorem verify_ok (h : verify prog v = .ok ()) :
    prog.length % INSN_SIZE = 0 ∧ verifyFrom prog v 0 = .ok (prog.length / INSN_SIZE) := by
  obtain ⟨_, hlen, h⟩ := except_inv h
  obtain ⟨q, hq, h⟩ := except_inv h
  split at h
  · cases h
  · rename_i heq
    rw [not_not.mp heq] at hq
    refine ⟨?_, hq⟩
    simp only [checkProgLen] at hlen
    split at hlen
    · cases hlen
    · rename_i hmod
      exact not_not.mp hmod

/-- Each slot of a program that passes is an instruction or the second slot of an
`LDDW`, which has opcode zero. -/
theorem verify_slot (h : verify prog v = .ok ()) (hp : p < prog.length / INSN_SIZE) :
    (∃ insn check, Verified prog v p insn check) ∨
      ∃ q insn second, p = q + 1 ∧ Verified prog v q insn .loadDw ∧ getInsn prog p = some second ∧
        second.opc = 0 := by
  obtain ⟨i, r, hi, hle, hlt⟩ := verifyFrom_ok (verify_ok h).2 (Nat.zero_le p) hp
  obtain ⟨insn, check, hverified, rfl⟩ := verifyInsn_ok hi
  by_cases heq : i = p
  · exact .inl ⟨insn, check, heq ▸ hverified⟩
  · cases check <;> simp only [Check.slots] at hlt
    case loadDw =>
      obtain rfl : p = i + 1 := by omega
      obtain ⟨-, second, hsecond, hopc⟩ := hverified.holds
      exact .inr ⟨i, insn, second, rfl, hverified, hsecond, hopc⟩
    all_goals omega

end Verifier

/-! ## The two matches -/

section Agreement

open Verifier Interpreter

/-- Divides by its operand without looking whether it is zero, in the immediate form. -/
def AluOp.divides : AluOp → Bool
  | .div32 | .mod32 | .div64 | .mod64 => true
  | .udiv32 | .udiv64 | .urem32 | .urem64 => true
  | .sdiv32 | .sdiv64 | .srem32 | .srem64 => true
  | _ => false

def AluOp.swaps : AluOp → Bool
  | .le | .be => true
  | _ => false

/-- The check that an arm of the interpreter relies on. -/
def Interpreter.Arm.relies (check : Check) (arm : Arm) : Bool :=
  (arm == .ldDwImm) == (check == .loadDw) && (!arm.jumps || check == .jmpOffset) &&
    match arm with
    | .alu op .imm => (!op.divides || check == .immNonzero) && (!op.swaps || check == .immEndian)
    | .alu op .reg => !op.swaps
    | .callReg => check == .callxRegister
    | _ => true

/-- The comparison of the two matches, arm by arm. -/
theorem arms_agree : (arms.all fun arm => SBPFVersion.all.all fun v =>
      !(arm.guard (v, true) || arm.guard (v, false)) || (selectArm v arm.key).any (Arm.relies arm.body)) = true := by
  decide +kernel

theorem selectArm_of_selectCheck (h : selectCheck v insn = some check) :
    ∃ arm, selectArm v insn.opc = some arm ∧ arm.relies check = true := by
  refine Dispatch.select_related (R := fun check arm => Arm.relies check arm = true) (fun arm harm hguard => ?_) h
  have hagree := List.all_eq_true.mp (List.all_eq_true.mp arms_agree arm harm) v v.mem_all
  have hguard : (arm.guard (v, true) || arm.guard (v, false)) = true := by
    cases hfp : insn.dst.toNat == FRAME_PTR_REG <;> rw [hfp] at hguard <;> simp [hguard]
  simp only [hguard, Bool.not_true, Bool.false_or, Option.any_eq_true] at hagree
  exact hagree

/-- No arm is taken for the opcode of a second slot. -/
theorem selectArm_zero (v) : selectArm v 0 = none := by
  cases v <;> rfl

end Agreement

/-! ## The code of a verified executable -/

section Code

open Verifier Interpreter

variable {exe : Executable C} {arm : Arm}

theorem Executable.armAt_eq_some : exe.armAt p = some (insn, arm) ↔
      getInsn exe.text p = some insn ∧ selectArm exe.sbpfVersion insn.opc = some arm := by
  simp only [armAt, Option.bind_eq_bind, Option.bind_eq_some_iff, Option.pure_def, Option.some.injEq, Prod.mk.injEq]
  constructor
  · rintro ⟨_, hinsn, _, harm, rfl, rfl⟩
    exact ⟨hinsn, harm⟩
  · rintro ⟨hinsn, harm⟩
    exact ⟨insn, hinsn, arm, harm, rfl, rfl⟩

/-- An instruction that the interpreter has an arm for is one that the verifier has
checked, for what the arm relies on. -/
theorem verified_of_armAt (h : verify exe.text exe.sbpfVersion = .ok ()) (harm : exe.armAt p = some (insn, arm)) :
    ∃ check, Verified exe.text exe.sbpfVersion p insn check ∧ arm.relies check = true := by
  obtain ⟨hinsn, harm⟩ := armAt_eq_some.mp harm
  have hlen := (verify_ok h).1
  have hlt := lt_of_getInsn hinsn
  simp only [INSN_SIZE] at hlen hlt
  rcases verify_slot h (show p < exe.text.length / INSN_SIZE by simp only [INSN_SIZE]; omega) with
    ⟨insn', check, hverified⟩ | ⟨_, _, second, _, _, hsecond, hopc⟩
  · obtain rfl : insn' = insn := by simpa [hinsn] using hverified.insn_eq.symm
    obtain ⟨arm', harm', hrelies⟩ := selectArm_of_selectCheck hverified.check_eq
    obtain rfl : arm' = arm := by simpa [harm] using harm'.symm
    exact ⟨check, hverified, hrelies⟩
  · obtain rfl : second = insn := by simpa [hinsn] using hsecond.symm
    rw [hopc] at harm
    cases harm

theorem Interpreter.Arm.eq_loadDw_of_relies (h : relies check .ldDwImm = true) : check = .loadDw := by
  simpa [relies, jumps] using h

theorem Interpreter.Arm.eq_jmpOffset_of_relies (h : arm.relies check = true)
    (hjumps : arm.jumps = true) : check = .jmpOffset := by
  simp only [relies, hjumps, Bool.not_true, Bool.false_or, Bool.and_eq_true, beq_iff_eq] at h
  exact h.1.2

variable (h : verify exe.text exe.sbpfVersion = .ok ())

include h

theorem opc_of_second (hsecond : exe.code.Second p) (hinsn : getInsn exe.text p = some insn) : insn.opc = 0 := by
  obtain ⟨q, ⟨first, hfirst⟩, rfl⟩ := hsecond
  obtain ⟨check, hverified, hrelies⟩ := verified_of_armAt h hfirst
  obtain rfl := Arm.eq_loadDw_of_relies hrelies
  obtain ⟨-, second, hsecond, hopc⟩ := hverified.holds
  obtain rfl : second = insn := by simpa [hinsn] using hsecond.symm
  exact hopc

theorem wellFormed_code : exe.code.WellFormed where
  wide_lt := by
    rintro p ⟨insn, harm⟩
    obtain ⟨check, hverified, hrelies⟩ := verified_of_armAt h harm
    obtain rfl := Arm.eq_loadDw_of_relies hrelies
    have hlen := (verify_ok h).1
    have hlt := hverified.holds.1
    simp only [code, insnCount, INSN_SIZE] at hlen hlt ⊢
    omega
  wide_succ := by
    rintro p hwide ⟨second, harm⟩
    obtain ⟨hinsn, harm⟩ := armAt_eq_some.mp harm
    rw [opc_of_second h ⟨p, hwide, rfl⟩ hinsn] at harm
    cases harm
  jumps_lt := by
    rintro p t ⟨insn, arm, harm, hjumps, ht⟩
    obtain ⟨check, hverified, hrelies⟩ := verified_of_armAt h harm
    obtain rfl := Arm.eq_jmpOffset_of_relies hrelies hjumps
    obtain ⟨t', ht', hlt, -⟩ := hverified.holds
    obtain rfl : t = t' := by omega
    exact hlt
  jumps_first := by
    rintro p t ⟨insn, arm, harm, hjumps, ht⟩ hsecond
    obtain ⟨check, hverified, hrelies⟩ := verified_of_armAt h harm
    obtain rfl := Arm.eq_jmpOffset_of_relies hrelies hjumps
    obtain ⟨t', ht', -, target, htarget, hopc⟩ := hverified.holds
    obtain rfl : t = t' := by omega
    exact hopc (opc_of_second h hsecond htarget)

/-- A slot is an instruction that the interpreter has an arm for, or a second slot. -/
theorem armAt_or_second (hp : p < exe.insnCount) :
    (∃ insn arm, exe.armAt p = some (insn, arm)) ∨ exe.code.Second p := by
  rcases verify_slot h hp with ⟨insn, check, hverified⟩ | ⟨q, insn, _, rfl, hverified, _, _⟩
  · obtain ⟨arm, harm, -⟩ := selectArm_of_selectCheck hverified.check_eq
    exact .inl ⟨insn, arm, armAt_eq_some.mpr ⟨hverified.insn_eq, harm⟩⟩
  · obtain ⟨arm, harm, hrelies⟩ := selectArm_of_selectCheck hverified.check_eq
    refine .inr ⟨q, ⟨insn, armAt_eq_some.mpr ⟨hverified.insn_eq, ?_⟩⟩, rfl⟩
    simp only [Arm.relies, beq_self_eq_true, Bool.and_eq_true, beq_iff_eq] at hrelies
    rw [harm, hrelies.1.1]

omit h

end Code

end Svm.Sbpf
