import Mathlib.Data.List.GetD

/-!
# Stacks without interleaving

A stack is a list whose last entry is on top. In a `Contiguous` stack the positions with
the same value form one block. `StackChange` lists the changes of a stack on which a
value is pushed only if it is new or on top already; they keep it contiguous
(`StackChange.contiguous`) and leave what lies under the top (`StackChange.getElem?_eq`).
-/

namespace Svm

variable {α : Type}

/-- Between two positions with the same value there is no other value. -/
def Contiguous (l : List α) : Prop :=
  ∀ (a : α) (i j k : Nat), i ≤ j → j ≤ k → l[i]? = some a → l[k]? = some a → l[j]? = some a

theorem contiguous_of_length_le_one (h : l.length ≤ 1) : Contiguous l := by
  intro a i j k hij hjk hi hk
  have hklt := (getElem?_eq_some_iff.mp hk).1
  have hj : j = k := by omega
  rw [hj, hk]

theorem Contiguous.dropLast (h : Contiguous l) : Contiguous l.dropLast := by
  intro a i j k hij hjk hi hk
  have hklt := (getElem?_eq_some_iff.mp hk).1
  rw [List.length_dropLast] at hklt
  rw [List.getElem?_dropLast, if_pos (by omega)] at hi hk ⊢
  exact h a i j k hij hjk hi hk

theorem Contiguous.concat (h : Contiguous l) (htop : a ∈ l → l.getLast? = some a) : Contiguous (l ++ [a]) := by
  intro b i j k hij hjk hi hk
  have hklt := (getElem?_eq_some_iff.mp hk).1
  rw [List.length_append, List.length_singleton] at hklt
  rcases Nat.lt_or_ge k l.length with hkl | hkl
  · rw [List.getElem?_append_left (by omega)] at hi hk ⊢
    exact h b i j k hij hjk hi hk
  -- The position above is the new one, so its value is on top below it or not there at all.
  have hk' : k = l.length := by omega
  subst hk'
  rw [List.getElem?_concat_length, Option.some.injEq] at hk
  subst hk
  rcases Nat.lt_or_ge j l.length with hjl | hjl
  · rw [List.getElem?_append_left (by omega)] at hi ⊢
    have hlast := htop (List.mem_of_getElem? hi)
    rw [List.getLast?_eq_getElem?] at hlast
    exact h a i j (l.length - 1) hij (by omega) hi hlast
  · have hj : j = l.length := by omega
    rw [hj, List.getElem?_concat_length]

/-- A change of the stack. -/
inductive StackChange : List α → List α → Prop
  | same (l : List α) : StackChange l l
  /-- A value is pushed that is not in the stack, or on top of it. -/
  | push (l : List α) (a : α) (top : a ∈ l → l.getLast? = some a) : StackChange l (l ++ [a])
  | pop (l : List α) : StackChange l l.dropLast
  /-- The only entry is replaced. -/
  | replace (a b : α) : StackChange [a] [b]

theorem StackChange.contiguous (hchange : StackChange l l') (h : Contiguous l) : Contiguous l' := by
  cases hchange with
  | same => exact h
  | push _ _ top => exact h.concat top
  | pop => exact h.dropLast
  | replace a b => exact contiguous_of_length_le_one (by simp)

/-- Two entries that stay on the stack are not changed. -/
theorem StackChange.getElem?_eq (hchange : StackChange l l') (hi : 0 < i) (hlt : i < l.length)
    (hlt' : i < l'.length) (hj : j ≤ i) : l'[j]? = l[j]? := by
  cases hchange with
  | same => rfl
  | push => exact List.getElem?_append_left (by omega)
  | pop =>
    rw [List.length_dropLast] at hlt'
    rw [List.getElem?_dropLast, if_pos (by omega)]
  | replace a b =>
    rw [List.length_singleton] at hlt
    omega

end Svm
