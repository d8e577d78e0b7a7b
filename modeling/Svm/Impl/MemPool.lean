import Mathlib.Init

/-!
# The pool of VM memory

`mem_pool.rs`: the stacks and heaps that executions take and return. A buffer is an
allocation with its bytes. The debug assertions on sizes are left out, and the
saturating operations on the index of the next empty slot are exact, since it stays
between zero and the number of slots.
-/

namespace Svm

def MAX_INSTRUCTION_STACK_DEPTH_SIMD_0268 : Nat := 9

def MAX_CALL_DEPTH : Nat := 64

def STACK_FRAME_SIZE : Nat := 4096

def MAX_HEAP_FRAME_BYTES : UInt32 := 256 * 1024

/-! ## Slots -/

structure Pool (T : Type) (SIZE : Nat) where
  items : Vector (Option T) SIZE
  nextEmpty : Nat

namespace Pool

variable {T : Type} {SIZE : Nat}

def new (items : Vector T SIZE) : Pool T SIZE := ⟨items.map some, SIZE⟩

def get (p : Pool T SIZE) : Option T × Pool T SIZE :=
  if p.nextEmpty = 0 then (none, p)
  else
    let nextEmpty := p.nextEmpty - 1
    (p.items[nextEmpty]?.join, ⟨p.items.setIfInBounds nextEmpty none, nextEmpty⟩)

/-- The value is reset when it is stored. It is dropped if no slot is left. -/
def put (reset : T → T) (value : T) (p : Pool T SIZE) : Bool × Pool T SIZE :=
  if p.nextEmpty < SIZE then
    (true, ⟨p.items.setIfInBounds p.nextEmpty (some (reset value)), p.nextEmpty + 1⟩)
  else (false, p)

end Pool

/-! ## Buffers -/

structure AlignedMemory where
  allocation : Nat
  bytes : List UInt8
deriving DecidableEq

namespace AlignedMemory

def zeroFilled (allocation maxLen : Nat) : AlignedMemory := ⟨allocation, .replicate maxLen 0⟩

/-- `fill(0)` over the whole slice. -/
def reset (m : AlignedMemory) : AlignedMemory := { m with bytes := m.bytes.map fun _ => 0 }

end AlignedMemory

structure VmMemoryPool where
  stack : Pool AlignedMemory MAX_INSTRUCTION_STACK_DEPTH_SIMD_0268
  heap : Pool AlignedMemory MAX_INSTRUCTION_STACK_DEPTH_SIMD_0268

namespace VmMemoryPool

/-- The stacks are the first allocations, and then come the heaps. -/
def new : VmMemoryPool where
  stack := .new (.ofFn fun i => .zeroFilled i (STACK_FRAME_SIZE * MAX_CALL_DEPTH))
  heap := .new (.ofFn fun i => .zeroFilled (MAX_INSTRUCTION_STACK_DEPTH_SIMD_0268 + i) MAX_HEAP_FRAME_BYTES.toNat)

variable (pool : VmMemoryPool)

/-- `allocation` is what an allocation would be, if the pool has no stack left. -/
def getStack (size allocation : Nat) : AlignedMemory × VmMemoryPool :=
  let (item, stack) := pool.stack.get
  (item.getD (.zeroFilled allocation size), { pool with stack })

def putStack (stack : AlignedMemory) : Bool × VmMemoryPool :=
  let (stored, stack) := pool.stack.put AlignedMemory.reset stack
  (stored, { pool with stack })

/-- A heap has the maximal size, of which an execution uses the first part. -/
def getHeap (_heapSize : UInt32) (allocation : Nat) : AlignedMemory × VmMemoryPool :=
  let (item, heap) := pool.heap.get
  (item.getD (.zeroFilled allocation MAX_HEAP_FRAME_BYTES.toNat), { pool with heap })

def putHeap (heap : AlignedMemory) : Bool × VmMemoryPool :=
  let (stored, heap) := pool.heap.put AlignedMemory.reset heap
  (stored, { pool with heap })

end VmMemoryPool

end Svm
