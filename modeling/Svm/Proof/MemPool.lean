import Svm.Spec.MemPool
import Mathlib.Data.List.Nodup

/-!
# Pooled memory leaks nothing

A pool is a stack of values in the first of its slots (`Pool.Holds`): `get` takes the
last one and `put` adds one. No buffer is in two places at once, and all those in the
pool are zero (`Sealed`), so what is handed out is zero and held by nobody else
(`memory_pool_leaks_nothing`).
-/

namespace Svm

open List

variable {T : Type} {SIZE : Nat}

/-! ## Slots -/

namespace Pool

variable {p : Pool T SIZE}

/-- The values in the slots of the pool, the next one to take last. -/
structure Holds (p : Pool T SIZE) (l : List T) : Prop where
  next : p.nextEmpty = l.length
  items : p.items.toList = l.map some ++ replicate (SIZE - l.length) none

theorem Holds.length_le (h : p.Holds l) : l.length ≤ SIZE := by
  have hlen := congrArg length h.items
  simp only [Vector.length_toList, length_append, length_map] at hlen
  omega

theorem Holds.getElem? (h : p.Holds l) (i : Nat) : p.items[i]? = if i < SIZE then some l[i]? else none := by
  rw [← Vector.getElem?_toList, h.items]
  have hle := h.length_le
  split_ifs with hi
  · rcases Nat.lt_or_ge i l.length with hlt | hge
    · rw [getElem?_append_left (by simpa using hlt), getElem?_map, getElem?_eq_getElem hlt]
      rfl
    · rw [getElem?_append_right (by simpa using hge), getElem?_replicate_of_lt (by simp; omega),
        getElem?_eq_none hge]
  · rw [getElem?_eq_none (by simp; omega)]

theorem holds_new (f : Fin SIZE → T) : (new (.ofFn f)).Holds (ofFn f) := by
  refine ⟨(length_ofFn ..).symm, ?_⟩
  rw [new, length_ofFn, Nat.sub_self, replicate_zero, append_nil, ← Vector.toList_ofFn]
  exact Vector.toList_map ..

theorem Holds.get_nil (h : p.Holds []) : p.get = (none, p) := by
  simp [get, h.next]

theorem Holds.get_concat (h : p.Holds (l ++ [x])) : p.get.1 = some x ∧ p.get.2.Holds l := by
  have hle := h.length_le
  rw [length_append, length_singleton] at hle
  have hnext : p.nextEmpty = l.length + 1 := h.next.trans (by simp)
  simp only [get, hnext, Nat.add_one_ne_zero, if_false, Nat.add_sub_cancel, h.getElem?]
  refine ⟨by simp [show l.length < SIZE by omega], rfl, ?_⟩
  rw [Vector.toList_setIfInBounds, h.items, map_append, append_assoc, set_append_right _ _ (by simp)]
  simp only [length_map, Nat.sub_self, map_cons, map_nil, cons_append, nil_append, set_cons_zero, length_append,
    length_singleton]
  rw [show SIZE - l.length = SIZE - (l.length + 1) + 1 by omega, replicate_succ]

theorem Holds.put (h : p.Holds l) (reset : T → T) (value : T) :
    (p.put reset value).2.Holds (if l.length < SIZE then l ++ [reset value] else l) := by
  simp only [Pool.put, h.next]
  split_ifs with hlt
  · refine ⟨by simp, ?_⟩
    rw [Vector.toList_setIfInBounds, h.items]
    rw [show SIZE - l.length = SIZE - (l.length + 1) + 1 by omega, replicate_succ]
    simp
  · exact h

theorem Holds.inOrder (h : p.Holds l) : p.InOrder := by
  refine ⟨fun i x hx => ?_, fun reset value i x hx => ?_⟩
  · rw [h.getElem?] at hx
    split_ifs at hx
    cases hx
    rw [h.next, isSome_getElem?]
  · rw [h.getElem?] at hx
    rw [(h.put reset value).getElem?]
    split_ifs at hx ⊢ with hi
    · have hlt : i < l.length := (List.getElem?_eq_some_iff.mp (Option.some.inj hx)).1
      rw [getElem?_append_left hlt, hx]
    · exact hx

end Pool

/-! ## Buffers -/

/-- The buffers in the pool are zero, and no two buffers are one allocation. -/
structure Sealed (pooled held : List AlignedMemory) (next : Nat) : Prop where
  zero : ∀ m ∈ pooled, ∀ b ∈ m.bytes, b = 0
  apart : ((pooled ++ held).map (·.allocation)).Nodup
  below : ∀ m ∈ pooled ++ held, m.allocation < next

namespace Sealed

variable {next : Nat}

theorem perm (h : Sealed pooled held next)
    (hp : (pooled ++ held).Perm (pooled' ++ held')) (hsub : ∀ m ∈ pooled', m ∈ pooled) : Sealed pooled' held' next where
  zero m hm := h.zero m (hsub m hm)
  apart := (hp.map _).nodup_iff.mp h.apart
  below m hm := h.below m (hp.mem_iff.mpr hm)

theorem swap (h : Sealed (pooled ++ pooled') held next) : Sealed (pooled' ++ pooled) held next :=
  h.perm (perm_append_comm.append_right held) fun _ hm => perm_append_comm.mem_iff.mp hm

/-- What is taken from the pool is held from then on. -/
theorem take (h : Sealed (m :: pooled) held next) : Sealed pooled (m :: held) next :=
  h.perm perm_middle.symm fun _ => mem_cons_of_mem _

theorem clean (h : Sealed (m :: pooled) held next) : Clean held m where
  zero := h.zero m mem_cons_self
  apart m' hm' heq := (nodup_cons.mp h.apart).1 (mem_map.mpr ⟨m', mem_append_right _ hm', heq⟩)

/-- A buffer that is held is replaced by one of the same allocation. -/
theorem replace (h : Sealed pooled held next) (hm : m ∈ held)
    (hm' : m'.allocation = m.allocation) : Sealed pooled (m' :: held.erase m) next := by
  have hp : (pooled ++ held).Perm (pooled ++ m :: held.erase m) := (perm_cons_erase hm).append_left pooled
  have hr := h.perm hp fun _ => id
  refine ⟨h.zero, ?_, fun x hx => ?_⟩
  · simpa only [map_append, map_cons, hm'] using hr.apart
  · simp only [mem_append, mem_cons] at hx
    rcases hx with hx | rfl | hx
    · exact hr.below x (mem_append_left _ hx)
    · rw [hm']
      exact h.below m (mem_append_right _ hm)
    · exact hr.below x (mem_append_right _ (mem_cons_of_mem _ hx))

/-- A buffer that is dropped is nowhere. -/
theorem drop (h : Sealed pooled held next) : Sealed pooled (held.erase m) next := by
  have hs : (pooled ++ held.erase m).Sublist (pooled ++ held) := (erase_sublist ..).append_left pooled
  exact ⟨h.zero, h.apart.sublist (hs.map _), fun x hx => h.below x (hs.subset hx)⟩

variable {p : Pool AlignedMemory SIZE}

/-- `get` gives a buffer of the pool, or else a new one is allocated. -/
theorem get (h : Sealed (l ++ pooled) held next) (hp : p.Holds l) (len : Nat) : ∃ l', p.get.2.Holds l' ∧
    Sealed (p.get.1.getD (.zeroFilled next len) :: (l' ++ pooled)) held (next + 1) := by
  rcases eq_nil_or_concat l with rfl | ⟨l', m, rfl⟩
  · refine ⟨[], by rw [hp.get_nil]; exact hp, ?_⟩
    rw [hp.get_nil]
    refine ⟨fun m hm b hb => ?_, nodup_cons.mpr ⟨fun hmem => ?_, h.apart⟩, fun m hm => ?_⟩
    · rcases mem_cons.mp hm with rfl | hm
      · exact eq_of_mem_replicate hb
      · exact h.zero m hm b hb
    · obtain ⟨m, hm, heq⟩ := mem_map.mp hmem
      exact Nat.ne_of_lt (h.below m hm) heq
    · rcases mem_cons.mp hm with rfl | hm
      · exact Nat.lt_succ_self next
      · exact Nat.lt_succ_of_lt (h.below m hm)
  · rw [concat_eq_append] at h hp
    obtain ⟨hget, hp'⟩ := hp.get_concat
    rw [append_assoc] at h
    refine ⟨l', hp', ?_⟩
    rw [hget]
    have hm : (l' ++ ([m] ++ pooled)).Perm (m :: (l' ++ pooled)) := perm_middle
    have := h.perm (hm.append_right held) fun x hx => hm.mem_iff.mpr hx
    exact { this with below := fun x hx => Nat.lt_succ_of_lt (this.below x hx) }

/-- A buffer that is returned is reset, or dropped. -/
theorem put (h : Sealed (l ++ pooled) held next) (hm : m ∈ held) :
    Sealed ((if l.length < SIZE then l ++ [m.reset] else l) ++ pooled) (held.erase m) next := by
  split_ifs
  · have hr : Sealed (l ++ pooled) (m.reset :: held.erase m) next := h.replace hm rfl
    have hp : (l ++ pooled ++ m.reset :: held.erase m).Perm (l ++ [m.reset] ++ pooled ++ held.erase m) := by
      simpa using perm_middle.append_left l
    refine ⟨fun x hx b hb => ?_, (hp.map _).nodup_iff.mp hr.apart, fun x hx => hr.below x (hp.mem_iff.mpr hx)⟩
    simp only [mem_append, mem_singleton] at hx
    rcases hx with (hx | rfl) | hx
    · exact h.zero x (mem_append_left _ hx) b hb
    · obtain ⟨_, -, rfl⟩ := mem_map.mp hb
      rfl
    · exact h.zero x (mem_append_right _ hx) b hb
  · exact h.drop

end Sealed

/-! ## Runs -/

/-- What the steps keep: the slots of the pool and the buffers that are held. -/
def PoolInv (s : MemoryUse) : Prop :=
  ∃ l k, s.pool.stack.Holds l ∧ s.pool.heap.Holds k ∧ Sealed (l ++ k) s.held s.next

namespace PoolInv

theorem start : PoolInv .start := by
  refine ⟨_, _, Pool.holds_new _, Pool.holds_new _, fun m hm b hb => ?_, by decide, fun m hm => ?_⟩
  · simp only [mem_append, mem_ofFn] at hm
    obtain ⟨i, rfl⟩ | ⟨i, rfl⟩ := hm <;> exact eq_of_mem_replicate hb
  · simp only [MemoryUse.start, append_nil, mem_append, mem_ofFn] at hm
    obtain ⟨⟨i, hi⟩, rfl⟩ | ⟨⟨i, hi⟩, rfl⟩ := hm
    all_goals
      simp only [AlignedMemory.zeroFilled, MemoryUse.start]
      omega

theorem step (h : PoolInv s) (hs : MemoryStep s s') : PoolInv s' := by
  obtain ⟨l, k, hl, hk, hb⟩ := h
  cases hs with
  | getStack size =>
    obtain ⟨l', hl', hb'⟩ := hb.get hl size
    exact ⟨l', k, hl', hk, hb'.take⟩
  | getHeap heapSize =>
    obtain ⟨k', hk', hb'⟩ := hb.swap.get hk MAX_HEAP_FRAME_BYTES.toNat
    exact ⟨l, k', hl, hk', hb'.take.swap⟩
  | write hm bytes => exact ⟨l, k, hl, hk, hb.replace hm rfl⟩
  | putStack hm => exact ⟨_, k, hl.put _ _, hk, hb.put hm⟩
  | putHeap hm => exact ⟨l, _, hl, hk.put _ _, (hb.swap.put hm).swap⟩
  | drop hm => exact ⟨l, k, hl, hk, hb.drop⟩

theorem leaksNothing (h : PoolInv s) : LeaksNothing s := by
  obtain ⟨l, k, hl, hk, hb⟩ := h
  refine ⟨fun size => ?_, fun heapSize => ?_, hb.apart.sublist ((sublist_append_right _ _).map _), hl.inOrder,
    hk.inOrder⟩
  · obtain ⟨l', -, hb'⟩ := hb.get hl size
    exact hb'.clean
  · obtain ⟨k', -, hb'⟩ := hb.swap.get hk MAX_HEAP_FRAME_BYTES.toNat
    exact hb'.clean

end PoolInv

/-- Whatever executions take, write and return, every buffer that is handed out is zero
and held by nobody else, and the slots of the pool are in order. -/
theorem memory_pool_leaks_nothing (h : Relation.ReflTransGen MemoryStep .start s) : LeaksNothing s := by
  have hinv : PoolInv s := by
    induction h with
    | refl => exact .start
    | tail _ hstep ih => exact ih.step hstep
  exact hinv.leaksNothing

/-- A heap is taken, written and returned. The next heap is zero. -/
theorem memory_pool_leaks_nothing_reused : ∃ s, Relation.ReflTransGen MemoryStep .start s ∧
    ∀ heapSize, Clean s.held (s.pool.getHeap heapSize s.next).1 := by
  let m := (VmMemoryPool.new.getHeap 32768 18).1
  let written : AlignedMemory := { m with bytes := m.bytes.map fun _ => 1 }
  have h : Relation.ReflTransGen MemoryStep .start _ :=
    ((Relation.ReflTransGen.single (.getHeap 32768)).tail
      (.write mem_cons_self _ (length_map ..))).tail (.putHeap (m := written) mem_cons_self)
  exact ⟨_, h, (memory_pool_leaks_nothing h).getHeap⟩

end Svm
