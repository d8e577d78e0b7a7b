import Svm.Impl.Sbpf.Ebpf

/-!
# Arithmetic and conditions

What the arms of `Interpreter::step` in `interpreter.rs` compute: the value of an
arithmetic instruction from `dst` and its operand, and the condition of a jump.
The operand is the immediate as a `u64` or the source register; where the source
narrows the two differently, the cases are apart. A division panics where Rust's
does. The host is little-endian.
-/

namespace Svm.Sbpf

inductive Operand where
  | imm
  | reg
  deriving DecidableEq, Repr

inductive AluOp where
  | add32 | sub32 | mul32 | div32 | or32 | and32 | lsh32 | rsh32 | neg32 | mod32 | xor32 | mov32 | arsh32
  | le | be
  | add64 | sub64 | mul64 | div64 | or64 | and64 | lsh64 | rsh64 | neg64 | mod64 | xor64 | mov64 | arsh64
  | hor64
  | lmul32 | lmul64 | uhmul64 | shmul64
  | udiv32 | udiv64 | urem32 | urem64 | sdiv32 | sdiv64 | srem32 | srem64
  deriving DecidableEq, Repr

abbrev Outcome := Except (Trap EbpfError) UInt64

/-! ## Conversions -/

/-- `x as i32`. -/
def asI32 (x : UInt64) : Int32 := x.toUInt32.toInt32

/-- `x as i32 as i64 as u64`, for an `i32`. -/
def extend (x : Int32) : UInt64 := x.toInt64.toUInt64

/-- `x as u32 as u64`, for an `i32`. -/
def zeroExtend (x : Int32) : UInt64 := x.toUInt32.toUInt64

def signExtension (v : SBPFVersion) (value : Int32) : UInt64 :=
  if v.explicitSignExtensionOfResults then zeroExtend value else extend value

def swapBytes16 (x : UInt16) : UInt16 := x <<< 8 ||| x >>> 8

def swapBytes32 (x : UInt32) : UInt32 :=
  (swapBytes16 x.toUInt16).toUInt32 <<< 16 ||| (swapBytes16 (x >>> 16).toUInt16).toUInt32

def swapBytes64 (x : UInt64) : UInt64 :=
  (swapBytes32 x.toUInt32).toUInt64 <<< 32 ||| (swapBytes32 (x >>> 32).toUInt32).toUInt64

/-! ## Division -/

/-- `/` or `%` of an unsigned type. -/
def unsigned {α : Type} [DecidableEq α] [OfNat α 0] (op : α → α → α) (a b : α) : Except (Trap EbpfError) α :=
  if b = 0 then .error .panic else .ok (op a b)

/-- `/` or `%` of a signed type with the least value `min`. -/
def signed {α : Type} [DecidableEq α] [OfNat α 0] [OfNat α 1] [Neg α] (min : α) (op : α → α → α) (a b : α) :
    Except (Trap EbpfError) α :=
  if b = 0 ∨ (a = min ∧ b = -1) then .error .panic else .ok (op a b)

/-- `throw_error!(DivideByZero; ...)`. -/
def throwDivideByZero (zero : Bool) : Except (Trap EbpfError) Unit :=
  if zero then .error (.error .DivideByZero) else .ok ()

/-- `throw_error!(DivideOverflow; ...)`. -/
def throwDivideOverflow (overflow : Bool) : Except (Trap EbpfError) Unit :=
  if overflow then .error (.error .DivideOverflow) else .ok ()

/-- A 32-bit unsigned division; only the register forms look at the divisor first. -/
def unsigned32 (op : UInt32 → UInt32 → UInt32) (o : Operand) (dst x : UInt64) : Outcome := do
  throwDivideByZero (o == .reg && x.toUInt32 == 0)
  return (← unsigned op dst.toUInt32 x.toUInt32).toUInt64

def unsigned64 (op : UInt64 → UInt64 → UInt64) (o : Operand) (dst x : UInt64) : Outcome := do
  throwDivideByZero (o == .reg && x == 0)
  unsigned op dst x

def signed32 (op : Int32 → Int32 → Int32) (o : Operand) (dst x : UInt64) : Outcome := do
  throwDivideByZero (o == .reg && asI32 x == 0)
  throwDivideOverflow (asI32 dst == Int32.minValue && asI32 x == -1)
  return zeroExtend (← signed Int32.minValue op (asI32 dst) (asI32 x))

def signed64 (op : Int64 → Int64 → Int64) (o : Operand) (dst x : UInt64) : Outcome := do
  throwDivideByZero (o == .reg && x.toInt64 == 0)
  throwDivideOverflow (dst.toInt64 == Int64.minValue && x.toInt64 == -1)
  return (← signed Int64.minValue op dst.toInt64 x.toInt64).toUInt64

/-- `insn.imm as u32 as u64` where the register form takes all of the register. -/
def narrowImm (o : Operand) (x : UInt64) : UInt64 :=
  match o with
  | .imm => x.toUInt32.toUInt64
  | .reg => x

/-! ## Instructions -/

/-- `LE` and `BE`, by the width in the immediate. -/
def endian (swap16 : UInt16 → UInt16) (swap32 : UInt32 → UInt32) (swap64 : UInt64 → UInt64)
    (dst imm : UInt64) : Outcome :=
  if imm = 16 then .ok (swap16 dst.toUInt16).toUInt64
  else if imm = 32 then .ok (swap32 dst.toUInt32).toUInt64
  else if imm = 64 then .ok (swap64 dst)
  else .error (.error .InvalidInstruction)

/-- The value that an arithmetic instruction gives `dst`, from its old value and the
operand `x`. -/
def AluOp.eval (v : SBPFVersion) (op : AluOp) (o : Operand) (dst x : UInt64) : Outcome :=
  match op with
  | .add32 => .ok (signExtension v (asI32 dst + asI32 x))
  | .sub32 =>
    if o = .imm ∧ v.swapSubRegImmOperands then .ok (signExtension v (asI32 x - asI32 dst))
    else .ok (signExtension v (asI32 dst - asI32 x))
  | .mul32 => .ok (signExtension v (asI32 dst * asI32 x))
  | .div32 => unsigned32 (· / ·) o dst x
  | .or32 => .ok (dst.toUInt32 ||| x.toUInt32).toUInt64
  | .and32 => .ok (dst.toUInt32 &&& x.toUInt32).toUInt64
  -- Lean's shifts take the amount modulo the width, as `wrapping_shl` and `wrapping_shr` do.
  | .lsh32 => .ok (dst.toUInt32 <<< x.toUInt32).toUInt64
  | .rsh32 => .ok (dst.toUInt32 >>> x.toUInt32).toUInt64
  | .neg32 => .ok (extend (-asI32 dst) &&& 0xffffffff)
  | .mod32 => unsigned32 (· % ·) o dst x
  | .xor32 => .ok (dst.toUInt32 ^^^ x.toUInt32).toUInt64
  | .mov32 =>
    if o = .reg ∧ v.explicitSignExtensionOfResults then .ok (extend (asI32 x))
    else .ok x.toUInt32.toUInt64
  | .arsh32 => .ok (zeroExtend (asI32 dst >>> asI32 x))
  | .le => endian id id id dst x
  | .be => endian swapBytes16 swapBytes32 swapBytes64 dst x
  | .add64 => .ok (dst + x)
  | .sub64 => if o = .imm ∧ v.swapSubRegImmOperands then .ok (x - dst) else .ok (dst - x)
  | .mul64 => .ok (dst * x)
  | .div64 => unsigned64 (· / ·) o dst x
  | .or64 => .ok (dst ||| x)
  | .and64 => .ok (dst &&& x)
  | .lsh64 => .ok (dst <<< x.toUInt32.toUInt64)
  | .rsh64 => .ok (dst >>> x.toUInt32.toUInt64)
  | .neg64 => .ok (-dst.toInt64).toUInt64
  | .mod64 => unsigned64 (· % ·) o dst x
  | .xor64 => .ok (dst ^^^ x)
  | .mov64 => .ok x
  | .arsh64 => .ok (dst.toInt64 >>> x.toUInt32.toUInt64.toInt64).toUInt64
  | .hor64 => .ok (dst ||| x <<< 32)
  | .lmul32 => .ok (dst.toUInt32 * x.toUInt32).toUInt64
  | .lmul64 => .ok (dst * x)
  | .uhmul64 => .ok (.ofNat ((dst.toNat * (narrowImm o x).toNat) >>> 64))
  | .shmul64 => .ok (Int64.ofInt ((dst.toInt64.toInt * x.toInt64.toInt) >>> (64 : Nat))).toUInt64
  | .udiv32 => unsigned32 (· / ·) o dst x
  | .udiv64 => unsigned64 (· / ·) o dst (narrowImm o x)
  | .urem32 => unsigned32 (· % ·) o dst x
  | .urem64 => unsigned64 (· % ·) o dst (narrowImm o x)
  | .sdiv32 => signed32 (· / ·) o dst x
  | .sdiv64 => signed64 (· / ·) o dst x
  | .srem32 => signed32 (· % ·) o dst x
  | .srem64 => signed64 (· % ·) o dst x

inductive Cond where
  | eq | gt | ge | lt | le | set | ne | sgt | sge | slt | sle
  deriving DecidableEq, Repr

def Cond.eval32 (c : Cond) (dst x : UInt64) : Bool :=
  match c with
  | .eq => dst.toUInt32 == x.toUInt32
  | .gt => dst.toUInt32 > x.toUInt32
  | .ge => dst.toUInt32 ≥ x.toUInt32
  | .lt => dst.toUInt32 < x.toUInt32
  | .le => dst.toUInt32 ≤ x.toUInt32
  | .set => dst.toUInt32 &&& x.toUInt32 != 0
  | .ne => dst.toUInt32 != x.toUInt32
  | .sgt => asI32 dst > asI32 x
  | .sge => asI32 dst ≥ asI32 x
  | .slt => asI32 dst < asI32 x
  | .sle => asI32 dst ≤ asI32 x

def Cond.eval64 (c : Cond) (dst x : UInt64) : Bool :=
  match c with
  | .eq => dst == x
  | .gt => dst > x
  | .ge => dst ≥ x
  | .lt => dst < x
  | .le => dst ≤ x
  | .set => dst &&& x != 0
  | .ne => dst != x
  | .sgt => dst.toInt64 > x.toInt64
  | .sge => dst.toInt64 ≥ x.toInt64
  | .slt => dst.toInt64 < x.toInt64
  | .sle => dst.toInt64 ≤ x.toInt64

end Svm.Sbpf
