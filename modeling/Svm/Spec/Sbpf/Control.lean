import Mathlib.Data.Set.Basic

/-!
# Control flow

Code as control flow sees it, without registers, memory or a meter: a number of
slots, the instructions that take two of them, and the targets of the jumps.
Control is a slot and the slots to return to. It falls through, jumps, calls a
slot of the code or returns (`Control.Step`); `Code.WellFormed` is what a verifier
has to guarantee.
-/

namespace Svm.Sbpf

structure Code where
  /-- The number of slots. -/
  length : Nat
  /-- The instructions that take two slots. -/
  wide : Set Nat
  /-- The targets of the jump at a slot. -/
  jumps : Nat → Set Nat

/-- The second slot of an instruction that takes two. -/
def Code.Second (code : Code) (p : Nat) : Prop := ∃ q ∈ code.wide, p = q + 1

structure Code.WellFormed (code : Code) : Prop where
  wide_lt {p : Nat} : p ∈ code.wide → p + 1 < code.length
  wide_succ {p : Nat} : p ∈ code.wide → p + 1 ∉ code.wide
  jumps_lt {p t : Nat} : t ∈ code.jumps p → t < code.length
  jumps_first {p t : Nat} : t ∈ code.jumps p → ¬ code.Second t

/-- How control gets from one instruction to the next. -/
inductive Transfer where
  | next
  | jump
  | call
  | ret
  deriving DecidableEq, Repr

structure Control where
  pc : Nat
  /-- Where to return to, the innermost call first. -/
  returns : List Nat

inductive Control.Step (code : Code) : Transfer → Control → Control → Prop where
  | next {p : Nat} {rs : List Nat} (hp : p < code.length) (hwide : p ∉ code.wide) :
    Step code .next ⟨p, rs⟩ ⟨p + 1, rs⟩
  | nextWide {p : Nat} {rs : List Nat} (hwide : p ∈ code.wide) : Step code .next ⟨p, rs⟩ ⟨p + 2, rs⟩
  | jump {p t : Nat} {rs : List Nat} (ht : t ∈ code.jumps p) : Step code .jump ⟨p, rs⟩ ⟨t, rs⟩
  | call {p t : Nat} {rs : List Nat} (hp : p < code.length) (hwide : p ∉ code.wide) (ht : t < code.length) :
    Step code .call ⟨p, rs⟩ ⟨t, (p + 1) :: rs⟩
  | ret {p r : Nat} {rs : List Nat} : Step code .ret ⟨p, r :: rs⟩ ⟨r, rs⟩

/-- Control is in the code or behind its end, and so are the slots to return to, which
are first slots. -/
structure Control.Inv (code : Code) (c : Control) : Prop where
  pc_le : c.pc ≤ code.length
  returns_le {r : Nat} : r ∈ c.returns → r ≤ code.length
  returns_first {r : Nat} : r ∈ c.returns → ¬ code.Second r

namespace Control

variable {code : Code} {t : Transfer} {c c' : Control}

theorem Step.inv (hcode : code.WellFormed) (h : Step code t c c') (hc : c.Inv code) : c'.Inv code := by
  cases h with
  | next hp _ => exact ⟨hp, hc.returns_le, hc.returns_first⟩
  | nextWide hwide => exact ⟨hcode.wide_lt hwide, hc.returns_le, hc.returns_first⟩
  | jump ht => exact ⟨(hcode.jumps_lt ht).le, hc.returns_le, hc.returns_first⟩
  | @call p t rs hp hwide ht =>
    refine ⟨ht.le, fun hr => ?_, fun hr => ?_⟩
    · rcases List.mem_cons.mp hr with rfl | hr
      · exact hp
      · exact hc.returns_le hr
    · rcases List.mem_cons.mp hr with rfl | hr
      · rintro ⟨q, hq, heq⟩
        obtain rfl : p = q := by omega
        exact hwide hq
      · exact hc.returns_first hr
  | ret =>
    exact ⟨hc.returns_le List.mem_cons_self, fun hr => hc.returns_le (List.mem_cons_of_mem _ hr),
      fun hr => hc.returns_first (List.mem_cons_of_mem _ hr)⟩

/-- Only a call gets to a second slot. -/
theorem Step.eq_call_of_second (hcode : code.WellFormed) (h : Step code t c c') (hc : c.Inv code)
    (hsecond : code.Second c'.pc) : t = .call := by
  cases h with
  | next _ hwide =>
    obtain ⟨q, hq, heq⟩ := hsecond
    obtain rfl := Nat.succ_injective heq
    exact absurd hq hwide
  | nextWide hwide =>
    obtain ⟨q, hq, heq⟩ := hsecond
    obtain rfl := Nat.succ_injective heq
    exact absurd hq (hcode.wide_succ hwide)
  | jump ht => exact absurd hsecond (hcode.jumps_first ht)
  | call _ _ _ => rfl
  | ret => exact absurd hsecond (hc.returns_first List.mem_cons_self)

/-- Only falling through and returning get behind the end. -/
theorem Step.next_or_ret_of_end (hcode : code.WellFormed) (h : Step code t c c')
    (hend : c'.pc = code.length) : t = .next ∨ t = .ret := by
  cases h with
  | next _ _ => exact .inl rfl
  | nextWide _ => exact .inl rfl
  | jump ht => exact absurd hend (hcode.jumps_lt ht).ne
  | call _ _ ht => exact absurd hend ht.ne
  | ret => exact .inr rfl

end Control

end Svm.Sbpf
