import Svm.Framework.Bytes
import Svm.Impl.Programs.LoaderV3

/-!
# Loader v3: the layout of the states

`bincode` writes the number of the variant in four bytes and then its fields, a slot in
eight bytes and an optional address behind a flag. Reading undoes that, so the layout
satisfies what `StateLibrary` asks for (`bincodeStates`).
-/

namespace Svm.Bincode

open Bytes LoaderV3

variable {bytes : List UInt8}

/-! ## Fields -/

theorem append_prefix_iff {α : Type} {l l' bytes : List α} :
    l ++ l' <+: bytes ↔ l <+: bytes ∧ l' <+: bytes.drop l.length := by
  constructor
  · rintro ⟨rest, rfl⟩
    rw [List.append_assoc, List.drop_left]
    exact ⟨List.prefix_append _ _, List.prefix_append _ _⟩
  · rintro ⟨⟨rest, rfl⟩, h⟩
    rw [List.drop_left] at h
    exact (List.prefix_append_right_inj l).mpr h

theorem prefix_iff_take_eq {α : Type} {l bytes : List α} (hlen : l.length = n) :
    l <+: bytes ↔ n ≤ bytes.length ∧ bytes.take n = l := by
  subst hlen
  rw [List.prefix_iff_eq_take, eq_comm, iff_and_self]
  exact fun h => (List.prefix_iff_eq_take.mpr h.symm).length_le

def decodePubkey (bytes : List UInt8) : Option Pubkey :=
  if h : 32 ≤ bytes.length then some ⟨(bytes.take 32).toArray, by simpa using h⟩ else none

theorem decodePubkey_eq_some : decodePubkey bytes = some key ↔ key.toList <+: bytes := by
  have hlen : key.toList.length = 32 := by simp
  rw [prefix_iff_take_eq hlen, decodePubkey]
  by_cases h : 32 ≤ bytes.length
  · rw [dif_pos h, Option.some_inj, and_iff_right h, ← Vector.toList_inj]
    rfl
  · simp [h]

def decodeSlot (bytes : List UInt8) : Option UInt64 :=
  if 8 ≤ bytes.length then some (.ofNat (ofLe (bytes.take 8))) else none

theorem decodeSlot_eq_some : decodeSlot bytes = some slot ↔ toLe 8 slot.toNat <+: bytes := by
  rw [prefix_iff_take_eq (length_toLe 8 _), decodeSlot]
  by_cases h : 8 ≤ bytes.length
  · have hlen : (bytes.take 8).length = 8 := by simpa using h
    have hlt : ofLe (bytes.take 8) < 2 ^ 64 := (ofLe_lt _).trans_eq (by rw [hlen]; rfl)
    rw [if_pos h, Option.some_inj, and_iff_right h]
    constructor
    · rintro rfl
      rw [UInt64.toNat_ofNat_of_lt' hlt]
      exact (hlen ▸ toLe_ofLe (bytes.take 8)).symm
    · intro heq
      rw [heq, ofLe_toLe_uint64, UInt64.ofNat_toNat]
  · simp [h]

def encodeOption : Option Pubkey → List UInt8
  | none => [0]
  | some key => 1 :: key.toList

def decodeOption : List UInt8 → Option (Option Pubkey)
  | [] => none
  | flag :: bytes => if flag = 0 then some none else if flag = 1 then (decodePubkey bytes).map some else none

theorem decodeOption_eq_some : decodeOption bytes = some key ↔ encodeOption key <+: bytes := by
  cases bytes with
  | nil => cases key <;> simp [decodeOption, encodeOption]
  | cons flag bytes =>
    rw [decodeOption]
    split_ifs with h0 h1
    · subst h0
      cases key <;> simp [encodeOption]
    · subst h1
      cases key <;> simp [encodeOption, decodePubkey_eq_some]
    · cases key <;> simp [encodeOption, Ne.symm h0, Ne.symm h1]

/-! ## States -/

def encodeLoaderState : UpgradeableLoaderState → List UInt8
  | .Uninitialized => [0, 0, 0, 0]
  | .Buffer authority => [1, 0, 0, 0] ++ encodeOption authority
  | .Program programdata => [2, 0, 0, 0] ++ programdata.toList
  | .ProgramData slot authority => [3, 0, 0, 0] ++ (toLe 8 slot.toNat ++ encodeOption authority)

def decodeLoaderState (bytes : List UInt8) : Option UpgradeableLoaderState :=
  if bytes.take 4 = [0, 0, 0, 0] then some .Uninitialized
  else if bytes.take 4 = [1, 0, 0, 0] then (decodeOption (bytes.drop 4)).map .Buffer
  else if bytes.take 4 = [2, 0, 0, 0] then (decodePubkey (bytes.drop 4)).map .Program
  else if bytes.take 4 = [3, 0, 0, 0] then
    (decodeSlot (bytes.drop 4)).bind fun slot => (decodeOption (bytes.drop 12)).map (.ProgramData slot)
  else none

/-- The number of the variant. -/
theorem variant_prefix_iff (hlen : variant.length = 4) : variant <+: bytes ↔ bytes.take 4 = variant := by
  rw [List.prefix_iff_eq_take, hlen, eq_comm]

theorem decodeLoaderState_iff_prefix :
    decodeLoaderState bytes = some state ↔ encodeLoaderState state <+: bytes := by
  have hvariant (n : UInt8) : [n, 0, 0, 0] <+: bytes ↔ bytes.take 4 = [n, 0, 0, 0] := variant_prefix_iff rfl
  rw [decodeLoaderState]
  split_ifs with h0 h1 h2 h3
  all_goals cases state
  all_goals simp only [encodeLoaderState, append_prefix_iff, *]
  all_goals simp [decodeOption_eq_some, decodePubkey_eq_some, decodeSlot_eq_some, Option.bind_eq_some_iff]

theorem length_encodeLoaderState (state) :
    (encodeLoaderState state).length = state.serializedSize := by
  cases state with
  | Uninitialized => rfl
  | Buffer authority => cases authority <;> simp [encodeLoaderState, encodeOption, UpgradeableLoaderState.serializedSize]
  | Program programdata => simp [encodeLoaderState, UpgradeableLoaderState.serializedSize]
  | ProgramData slot authority =>
    cases authority <;> simp [encodeLoaderState, encodeOption, UpgradeableLoaderState.serializedSize]

def bincodeStates : StateLibrary where
  deserialize := decodeLoaderState
  serialize := encodeLoaderState
  deserialize_eq_some := decodeLoaderState_iff_prefix
  length_serialize := length_encodeLoaderState
  serialize_uninitialized := rfl

end Svm.Bincode
