import Svm.Impl.MemPool
import Mathlib.Logic.Relation

/-!
# How executions use the pool of VM memory

An execution takes buffers, writes them and returns them, or drops them if no VM can be
made; other executions do the same in between (`MemoryStep`). `LeaksNothing` is what the
next execution can rely on.
-/

namespace Svm

/-- The pool, the buffers that are handed out, and the next allocation. -/
structure MemoryUse where
  pool : VmMemoryPool
  held : List AlignedMemory
  next : Nat

namespace MemoryUse

/-- Nothing is handed out yet. -/
def start : MemoryUse := ⟨.new, [], 2 * MAX_INSTRUCTION_STACK_DEPTH_SIMD_0268⟩

def take (s : MemoryUse) (taken : AlignedMemory × VmMemoryPool) : MemoryUse := ⟨taken.2, taken.1 :: s.held, s.next + 1⟩

end MemoryUse

inductive MemoryStep (s : MemoryUse) : MemoryUse → Prop where
  | getStack (size : Nat) : MemoryStep s (s.take (s.pool.getStack size s.next))
  | getHeap (heapSize : UInt32) : MemoryStep s (s.take (s.pool.getHeap heapSize s.next))
  | write {m : AlignedMemory} (hm : m ∈ s.held) (bytes : List UInt8) (hlen : bytes.length = m.bytes.length) :
      MemoryStep s { s with held := { m with bytes := bytes } :: s.held.erase m }
  | putStack {m : AlignedMemory} (hm : m ∈ s.held) :
      MemoryStep s { s with pool := (s.pool.putStack m).2, held := s.held.erase m }
  | putHeap {m : AlignedMemory} (hm : m ∈ s.held) :
      MemoryStep s { s with pool := (s.pool.putHeap m).2, held := s.held.erase m }
  | drop {m : AlignedMemory} (hm : m ∈ s.held) : MemoryStep s { s with held := s.held.erase m }

/-- The slots below the next empty one are occupied and the others are empty, and nothing
that is put takes an occupied slot. -/
structure Pool.InOrder {T : Type} {SIZE : Nat} (p : Pool T SIZE) : Prop where
  occupied : ∀ (i : Nat) (x : Option T), p.items[i]? = some x → (x.isSome ↔ i < p.nextEmpty)
  kept : ∀ (reset : T → T) (value : T) (i : Nat) (x : T), p.items[i]? = some (some x) →
    (p.put reset value).2.items[i]? = some (some x)

/-- The buffer is zero, and nobody holds it. -/
structure Clean (held : List AlignedMemory) (m : AlignedMemory) : Prop where
  zero : ∀ b ∈ m.bytes, b = 0
  apart : ∀ m' ∈ held, m'.allocation ≠ m.allocation

structure LeaksNothing (s : MemoryUse) : Prop where
  getStack : ∀ size, Clean s.held (s.pool.getStack size s.next).1
  getHeap : ∀ heapSize, Clean s.held (s.pool.getHeap heapSize s.next).1
  apart : (s.held.map (·.allocation)).Nodup
  stack : s.pool.stack.InOrder
  heap : s.pool.heap.InOrder

end Svm
