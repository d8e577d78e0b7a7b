import Mathlib.Tactic.Common
import Mathlib.Data.List.TakeWhile
import Mathlib.Order.Lattice

/-!
# Binary search by a comparison

What a search by halving can be relied on for when the elements are in order only
up to ties: if everything before `lo` compares less and everything from `hi` on
compares greater, the search ends between the two, whatever the comparison says in
between (`Searches`). The loop of halving steps has this property
(`searches_binarySearch`), and it ends at the last element that does not compare
greater (`binarySearch_last`). In a list that is in order of keys it finds the key or a
place for it (`Searches.sorted`).
-/

namespace Svm.Search

variable {α : Type} {i : Nat} {x : α}

/-- The result of a search: the index of an element that compares equal, or the index
at which one would be inserted. -/
abbrev Result := Except Nat Nat

/-- The search ends within any block outside of which the comparison is decided. -/
def Searches (search : (α → Ordering) → List α → Result) : Prop :=
  ∀ (f : α → Ordering) (l : List α) (lo hi : Nat), lo ≤ hi → hi ≤ l.length →
    (∀ i x, l[i]? = some x → i < lo → f x = .lt) → (∀ i x, l[i]? = some x → hi ≤ i → f x = .gt) →
    match search f l with
    | .ok i => lo ≤ i ∧ i < hi ∧ ∃ x, l[i]? = some x ∧ f x = .eq
    | .error i => lo ≤ i ∧ i ≤ hi

/-- The start of the window of one element that halving the window of `size` elements
from `base` ends in. -/
def narrow (f : α → Ordering) (l : List α) : (fuel base size : Nat) → Nat
  | 0, base, _ => base
  | fuel + 1, base, size =>
    if size ≤ 1 then base
    else if l[base + size / 2]?.map f = some .gt then narrow f l fuel base (size - size / 2)
    else narrow f l fuel (base + size / 2) (size - size / 2)

def binarySearch (f : α → Ordering) (l : List α) : Result :=
  let base := narrow f l l.length 0 l.length
  match l[base]?.map f with
  | some .eq => .ok base
  | some .lt => .error (base + 1)
  | _ => .error base

section Narrow

variable {f : α → Ordering} {l : List α} {lo hi : Nat}

/-- The window keeps meeting the block. -/
theorem narrow_spec (hbefore : ∀ i x, l[i]? = some x → i < lo → f x = .lt)
    (hafter : ∀ i x, l[i]? = some x → hi ≤ i → f x = .gt) (fuel base size : Nat) (hfuel : size ≤ fuel + 1)
    (hsize : 1 ≤ size) (hlen : base + size ≤ l.length) (hbase : base ≤ hi) (hmeets : lo ≤ base + size) :
    narrow f l fuel base size < l.length ∧ narrow f l fuel base size ≤ hi ∧ lo ≤ narrow f l fuel base size + 1 := by
  induction fuel generalizing base size with
  | zero => exact ⟨by simp only [narrow]; omega, hbase, by simp only [narrow]; omega⟩
  | succ fuel ih =>
    rw [narrow]
    obtain ⟨x, hx⟩ : ∃ x, l[base + size / 2]? = some x := ⟨_, List.getElem?_eq_getElem (by omega)⟩
    split_ifs with hone hgt
    · exact ⟨by omega, hbase, by omega⟩
    · have hlo : ¬ base + size / 2 < lo := by
        intro h
        rw [hx, Option.map_some, hbefore _ x hx h] at hgt
        cases hgt
      exact ih _ _ (by omega) (by omega) (by omega) hbase (by omega)
    · have hhi : base + size / 2 < hi := by
        refine Nat.lt_of_not_le fun h => hgt ?_
        rw [hx, Option.map_some, hafter _ x hx h]
      exact ih _ _ (by omega) (by omega) (by omega) (le_of_lt hhi) (by omega)

theorem searches_binarySearch : Searches (α := α) binarySearch := by
  intro f l lo hi hle hlen hbefore hafter
  by_cases hempty : l.length = 0
  · obtain rfl : l = [] := List.length_eq_zero_iff.mp hempty
    exact ⟨by simp at hlen; omega, by simp [narrow]⟩
  · obtain ⟨hlt, hhi, hlo⟩ := narrow_spec hbefore hafter l.length 0 l.length
      (by omega) (by omega) (by omega) (by omega) (by omega)
    rw [binarySearch]
    obtain ⟨x, hx⟩ : ∃ x, l[narrow f l l.length 0 l.length]? = some x := ⟨_, List.getElem?_eq_getElem hlt⟩
    generalize narrow f l l.length 0 l.length = base at *
    simp only [hx, Option.map_some]
    have hlo' (h : f x ≠ .lt) : lo ≤ base := Nat.le_of_not_lt fun hlt => h (hbefore base x hx hlt)
    have hhi' (h : f x ≠ .gt) : base < hi := Nat.lt_of_not_le fun hle => h (hafter base x hx hle)
    cases hf : f x with
    | lt => exact ⟨hlo, hhi' (hf ▸ nofun)⟩
    | eq => exact ⟨hlo' (hf ▸ nofun), hhi' (hf ▸ nofun), x, hx, hf⟩
    | gt => exact ⟨hlo' (hf ▸ nofun), hhi⟩

/-- The window keeps the last element that does not compare greater. -/
theorem narrow_last (hgt : ∀ i x, l[i]? = some x → (f x = .gt ↔ hi ≤ i)) (fuel base size : Nat)
    (hfuel : size ≤ fuel + 1) (hsize : 1 ≤ size) (hlen : base + size ≤ l.length) (hbase : base < hi)
    (hmeets : hi ≤ base + size) : narrow f l fuel base size + 1 = hi := by
  induction fuel generalizing base size with
  | zero =>
    rw [narrow]
    omega
  | succ fuel ih =>
    obtain ⟨x, hx⟩ : ∃ x, l[base + size / 2]? = some x := ⟨_, List.getElem?_eq_getElem (by omega)⟩
    simp only [narrow, hx, Option.map_some, Option.some.injEq, hgt _ x hx]
    split_ifs with hone hge
    · omega
    · exact ih _ _ (by omega) (by omega) (by omega) hbase (by omega)
    · exact ih _ _ (by omega) (by omega) (by omega) (by omega) (by omega)

/-- The search ends at the last element that does not compare greater: that one, or the
place behind it. -/
theorem binarySearch_last (hhi : hi ≤ l.length) (hgt : ∀ i x, l[i]? = some x → (f x = .gt ↔ hi ≤ i)) :
    (∃ i x, binarySearch f l = .ok i ∧ i + 1 = hi ∧ l[i]? = some x ∧ f x = .eq) ∨
      binarySearch f l = .error hi ∧ ∀ i x, i + 1 = hi → l[i]? = some x → f x = .lt := by
  rcases Nat.eq_zero_or_pos hi with rfl | hpos
  · have hfound := searches_binarySearch f l 0 0 (le_refl 0) hhi (fun _ _ _ hi => nomatch hi)
      fun i x hx hi => (hgt i x hx).mpr hi
    cases hs : binarySearch f l with
    | ok i =>
      rw [hs] at hfound
      exact absurd hfound.2.1 (Nat.not_lt_zero i)
    | error i =>
      rw [hs] at hfound
      obtain rfl : i = 0 := Nat.le_zero.mp hfound.2
      exact .inr ⟨rfl, fun i x hi => nomatch hi⟩
  · have hlast := narrow_last hgt l.length 0 l.length (by omega) (by omega) (by omega) hpos (by omega)
    rw [binarySearch]
    generalize narrow f l l.length 0 l.length = base at hlast ⊢
    obtain ⟨x, hx⟩ : ∃ x, l[base]? = some x := ⟨_, List.getElem?_eq_getElem (by omega)⟩
    simp only [hx, Option.map_some]
    cases hf : f x with
    | lt =>
      refine .inr ⟨congrArg Except.error hlast, fun i y hi hy => ?_⟩
      obtain rfl : i = base := by omega
      rwa [Option.some.inj (hy.symm.trans hx)]
    | eq => exact .inl ⟨base, x, rfl, hlast, hx, hf⟩
    | gt => exact absurd ((hgt base x hx).mp hf) (by omega)

end Narrow

/-! ## Lists in order -/

theorem of_lt_length_takeWhile {l : List α} (hx : l[i]? = some x)
    (hi : i < (l.takeWhile p).length) : p x = true := by
  obtain ⟨_, rfl⟩ := getElem?_eq_some_iff.mp hx
  rw [← (List.takeWhile_prefix p).getElem hi]
  exact List.mem_takeWhile_imp (List.getElem_mem hi)

theorem of_length_takeWhile_le {l : List α} (hl : l.Pairwise fun y z => p z = true → p y = true)
    (hx : l[i]? = some x) (hi : (l.takeWhile p).length ≤ i) : p x = false := by
  rw [← List.takeWhile_append_dropWhile (p := p) (l := l), List.getElem?_append_right hi] at hx
  have hmem := List.mem_of_getElem? hx
  have hne := List.ne_nil_of_mem hmem
  have hhead := List.head_dropWhile_not p hne
  have hdrop := hl.sublist (List.dropWhile_sublist p)
  rw [← List.cons_head_tail hne] at hmem hdrop
  rcases List.mem_cons.mp hmem with rfl | hmem
  · exact hhead
  · refine Bool.eq_false_iff.mpr fun hpx => ?_
    rw [(List.pairwise_cons.mp hdrop).1 x hmem hpx] at hhead
    cases hhead

section Sorted

variable {κ : Type} [LinearOrder κ] {key : α → κ} {l : List α}

/-- A search for the key `k` in a list in order of keys. The comparison may tell elements
with the key `k` apart in any way. -/
theorem Searches.sorted (hsearch : Searches search) (hl : l.Pairwise fun x y => key x ≤ key y)
    (hlt : ∀ x, key x < k → f x = .lt) (hgt : ∀ x, k < key x → f x = .gt) :
    match search f l with
    | .ok i => ∃ x, l[i]? = some x ∧ f x = .eq
    | .error i => (∀ x ∈ l.take i, key x ≤ k) ∧ ∀ x ∈ l.drop i, k ≤ key x := by
  have hlo : l.Pairwise fun x y => decide (key y < k) = true → decide (key x < k) = true :=
    hl.imp fun hxy hy => by simpa using hxy.trans_lt (by simpa using hy)
  have hhi : l.Pairwise fun x y => decide (key y ≤ k) = true → decide (key x ≤ k) = true :=
    hl.imp fun hxy hy => by simpa using hxy.trans (by simpa using hy)
  have hle : (l.takeWhile fun x => decide (key x < k)).length ≤
      (l.takeWhile fun x => decide (key x ≤ k)).length := by
    refine Nat.le_of_not_lt fun h => ?_
    obtain ⟨x, hx⟩ : ∃ x, l[(l.takeWhile fun x => decide (key x ≤ k)).length]? = some x :=
      ⟨_, List.getElem?_eq_getElem (lt_of_lt_of_le h (List.takeWhile_prefix _).length_le)⟩
    have hbelow := of_lt_length_takeWhile hx h
    have habove := of_length_takeWhile_le hhi hx (le_refl _)
    simp only [decide_eq_true_eq, decide_eq_false_iff_not] at hbelow habove
    exact habove hbelow.le
  have hfound := hsearch f l _ _ hle (List.takeWhile_prefix _).length_le
    (fun i x hx hi => hlt x (by simpa using of_lt_length_takeWhile hx hi))
    (fun i x hx hi => hgt x (by simpa using of_length_takeWhile_le hhi hx hi))
  cases hs : search f l with
  | ok i =>
    rw [hs] at hfound
    exact hfound.2.2
  | error i =>
    rw [hs] at hfound
    refine ⟨fun x hx => ?_, fun x hx => ?_⟩
    · obtain ⟨j, hj, hxj⟩ := List.mem_take_iff_getElem.mp hx
      have hget : l[j]? = some x := by rw [← hxj]; exact List.getElem?_eq_getElem _
      simpa using of_lt_length_takeWhile hget (p := fun x => decide (key x ≤ k)) (by omega)
    · obtain ⟨j, hj⟩ := List.mem_iff_getElem?.mp hx
      rw [List.getElem?_drop] at hj
      simpa using of_length_takeWhile_le hlo hj (by omega)

variable (hl : l.Pairwise fun x y => key x ≤ key y)

include hl

theorem pairwise_insert (hbefore : ∀ y ∈ l.take i, key y ≤ key x) (hafter : ∀ y ∈ l.drop i, key x ≤ key y) :
    (l.take i ++ x :: l.drop i).Pairwise fun x y => key x ≤ key y := by
  rw [List.pairwise_append, List.pairwise_cons]
  refine ⟨hl.sublist (List.take_sublist i l), ⟨hafter, hl.sublist (List.drop_sublist i l)⟩, ?_⟩
  intro y hy z hz
  rcases List.mem_cons.mp hz with rfl | hz
  · exact hbefore y hy
  · exact (hbefore y hy).trans (hafter z hz)

theorem pairwise_set
    (hx : l[i]? = some x) (hkey : key y = key x) : (l.set i y).Pairwise fun x y => key x ≤ key y := by
  have hmap : (l.set i y).map key = l.map key := by
    rw [List.map_set, hkey]
    obtain ⟨hi, rfl⟩ := getElem?_eq_some_iff.mp hx
    rw [← List.getElem_map key (h := by simpa using hi)]
    exact List.set_getElem_self _
  have hl' : (l.map key).Pairwise (· ≤ ·) := List.pairwise_map.mpr hl
  rw [← hmap] at hl'
  exact List.pairwise_map.mp hl'

/-- If the comparison is greater just above the key `k`, the search ends behind all other
elements. -/
theorem binarySearch_sorted (hgt : ∀ x, f x = .gt ↔ k < key x) :
    (∃ pre x post, l = pre ++ x :: post ∧ binarySearch f l = .ok pre.length ∧ f x = .eq ∧ ∀ y ∈ post, k < key y) ∨
    ∃ pre post, l = pre ++ post ∧ binarySearch f l = .error pre.length ∧
      (∀ y ∈ pre.getLast?, f y = .lt) ∧ ∀ y ∈ post, k < key y := by
  have hhi : l.Pairwise fun x y => decide (key y ≤ k) = true → decide (key x ≤ k) = true :=
    hl.imp fun hxy hy => by simpa using hxy.trans (by simpa using hy)
  have hcut : ∀ i x, l[i]? = some x → (f x = .gt ↔ (l.takeWhile fun x => decide (key x ≤ k)).length ≤ i) := by
    refine fun i x hx => (hgt x).trans ⟨fun hlt => Nat.le_of_not_lt fun hi => ?_, fun hi => ?_⟩
    · exact hlt.not_ge (by simpa using of_lt_length_takeWhile hx hi)
    · simpa using of_length_takeWhile_le hhi hx hi
  have hlen := (List.takeWhile_prefix (l := l) fun x => decide (key x ≤ k)).length_le
  generalize (l.takeWhile fun x => decide (key x ≤ k)).length = cut at hcut hlen
  have hpost {i : Nat} (hi : cut ≤ i) : ∀ y ∈ l.drop i, k < key y := by
    intro y hy
    obtain ⟨j, hj⟩ := List.mem_iff_getElem?.mp hy
    rw [List.getElem?_drop] at hj
    exact (hgt y).mp ((hcut _ y hj).mpr (by omega))
  rcases binarySearch_last hlen hcut with ⟨i, x, hs, rfl, hx, heq⟩ | ⟨hs, hlast⟩
  · obtain ⟨hi, rfl⟩ := getElem?_eq_some_iff.mp hx
    refine .inl ⟨l.take i, _, l.drop (i + 1), ?_, ?_, heq, hpost (le_refl _)⟩
    · rw [List.getElem_cons_drop, List.take_append_drop]
    · rw [hs, List.length_take_of_le (le_of_lt hi)]
  · refine .inr ⟨l.take cut, l.drop cut, (List.take_append_drop cut l).symm, ?_, fun y hy => ?_, hpost (le_refl _)⟩
    · rw [hs, List.length_take_of_le hlen]
    · rw [List.getLast?_take] at hy
      split_ifs at hy with hcut
      · cases hy
      · obtain ⟨x, hx⟩ : ∃ x, l[cut - 1]? = some x := ⟨_, List.getElem?_eq_getElem (by omega)⟩
        rw [hx] at hy
        exact hlast (cut - 1) y (by omega) (hy ▸ hx)

omit hl

end Sorted

end Svm.Search
