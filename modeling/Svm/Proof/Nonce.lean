import Svm.Impl.Programs.Common
import Svm.Impl.Nonce

/-!
# The released nonce library

The layout `bincode` gives the state of a nonce account, and the functions on it,
satisfy what `NonceLibrary` asks for (`bincodeNonces`).
-/

namespace Svm.Bincode

open Bytes List

/-- An enumeration is its variant as a `u32`, followed by the fields. -/
def encodeState : NonceState → List UInt8
  | .Uninitialized => toLe 4 0
  | .Initialized data => toLe 4 1 ++
      (data.authority.toList ++ (data.durableNonce.toList ++ toLe 8 data.lamportsPerSignature.toNat))

def encodeVersions : NonceVersions → List UInt8
  | .Legacy state => toLe 4 0 ++ encodeState state
  | .Current state => toLe 4 1 ++ encodeState state

def decodeState (bytes : List UInt8) : Option NonceState :=
  if bytes.length < 4 then none
  else match ofLe (bytes.take 4) with
    | 0 => some .Uninitialized
    | 1 =>
      if bytes.length < 76 then none
      else some (.Initialized
        { authority := toPubkey (bytes.drop 4)
          durableNonce := toPubkey (bytes.drop 36)
          lamportsPerSignature := .ofNat (ofLe ((bytes.drop 68).take 8)) })
    | _ => none

def decodeVersions (bytes : List UInt8) : Option NonceVersions :=
  if bytes.length < 4 then none
  else match ofLe (bytes.take 4) with
    | 0 => (decodeState (bytes.drop 4)).map .Legacy
    | 1 => (decodeState (bytes.drop 4)).map .Current
    | _ => none

variable (versions : NonceVersions)

theorem length_encodeVersions_le : (encodeVersions versions).length ≤ 80 := by
  cases versions with
  | Legacy state | Current state => cases state <;> simp [encodeVersions, encodeState]

theorem decodeState_append (state) (rest) :
    decodeState (encodeState state ++ rest) = some state := by
  cases state with
  | Uninitialized =>
    have htake : (toLe 4 0 ++ rest).take 4 = toLe 4 0 := take_left' (by simp)
    rw [decodeState, encodeState, htake]
    rfl
  | Initialized data =>
    simp only [encodeState, append_assoc]
    have htake : ∀ bytes, (toLe 4 1 ++ bytes).take 4 = toLe 4 1 := fun _ => take_left' (by simp)
    have hdrop4 : ∀ bytes, (toLe 4 1 ++ bytes).drop 4 = bytes := fun _ => drop_left' (by simp)
    have hdrop36 : ∀ (key : Pubkey) bytes, (toLe 4 1 ++ (key.toList ++ bytes)).drop 36 = bytes := by
      intro key bytes
      rw [← append_assoc]
      exact drop_left' (by simp)
    have hdrop68 : ∀ (key key' : Pubkey) bytes,
        (toLe 4 1 ++ (key.toList ++ (key'.toList ++ bytes))).drop 68 = bytes := by
      intro key key' bytes
      rw [← append_assoc, ← append_assoc]
      exact drop_left' (by simp)
    rw [decodeState, if_neg (by simp), htake, ofLe_toLe (by decide)]
    simp only
    rw [if_neg (by simp; omega), hdrop4, hdrop36, hdrop68, toPubkey_append, toPubkey_append,
      take_left' (by simp), ofLe_toLe_uint64, UInt64.ofNat_toNat]

theorem decodeVersions_append (rest) :
    decodeVersions (encodeVersions versions ++ rest) = some versions := by
  have htake (n : Nat) (bytes : List UInt8) : (toLe 4 n ++ bytes).take 4 = toLe 4 n := take_left' (by simp)
  have hdrop (n : Nat) (bytes : List UInt8) : (toLe 4 n ++ bytes).drop 4 = bytes := drop_left' (by simp)
  cases versions with
  | Legacy state | Current state =>
    rw [decodeVersions, encodeVersions, append_assoc, htake, hdrop, decodeState_append]
    rfl

theorem length_of_decodeState (h : decodeState bytes = some (.Initialized data)) : 76 ≤ bytes.length := by
  rw [decodeState] at h
  by_contra hlen
  rw [if_pos (show bytes.length < 76 by omega)] at h
  split_ifs at h
  split at h <;> cases h

theorem length_of_decodeVersions
    (h : decodeVersions bytes = some (.Current (.Initialized data))) : 80 ≤ bytes.length := by
  rw [decodeVersions] at h
  split_ifs at h
  split at h
  · cases hstate : decodeState (bytes.drop 4) with
    | none => simp at h
    | some state => simp at h
  · cases hstate : decodeState (bytes.drop 4) with
    | none => simp [hstate] at h
    | some state =>
      rw [hstate] at h
      obtain rfl : state = .Initialized data := by simpa using h
      have := length_of_decodeState hstate
      rw [length_drop] at this
      omega
  · cases h

theorem decodeState_zeros (h : decodeState (replicate n 0) = some state) : state = .Uninitialized := by
  rw [decodeState, take_replicate, ofLe_zeros fun byte hb => eq_of_mem_replicate hb] at h
  split at h
  · cases h
  · exact (Option.some.inj h).symm

theorem decodeVersions_zeros {versions : NonceVersions}
    (h : decodeVersions (replicate n 0) = some versions) : versions.state = .Uninitialized := by
  rw [decodeVersions, take_replicate, ofLe_zeros fun byte hb => eq_of_mem_replicate hb, drop_replicate] at h
  split at h
  · cases h
  · obtain ⟨state, hstate, rfl⟩ := Option.map_eq_some_iff.mp h
    exact decodeState_zeros hstate

def verifyNonceAccount (owner : Pubkey) (data : List UInt8) (recentBlockhash : Hash) : Option NonceData :=
  match decodeVersions data with
  | some (.Current (.Initialized nonce)) =>
    if owner = SYSTEM_PROGRAM_ID ∧ nonce.durableNonce = recentBlockhash then some nonce else none
  | _ => none

def getSystemAccountKind (owner : Pubkey) (data : List UInt8) : Option SystemAccountKind :=
  if owner ≠ SYSTEM_PROGRAM_ID then none
  else if data = [] then some .System
  else if data.length ≠ 80 then none
  else match (decodeVersions data).map NonceVersions.state with
    | some (.Initialized _) => some .Nonce
    | _ => none

def authorize (signers : List Pubkey) (authority : Pubkey) :
    Except AuthorizeNonceError NonceVersions :=
  match versions with
  | .Legacy (.Initialized nonce) =>
    if nonce.authority ∈ signers then .ok (.Legacy (.Initialized { nonce with authority := authority }))
    else .error .MissingRequiredSignature
  | .Current (.Initialized nonce) =>
    if nonce.authority ∈ signers then .ok (.Current (.Initialized { nonce with authority := authority }))
    else .error .MissingRequiredSignature
  | _ => .error .Uninitialized

def upgrade (fromBlockhash : Hash → Hash) : NonceVersions → Option NonceVersions
  | .Legacy (.Initialized nonce) =>
    some (.Current (.Initialized { nonce with durableNonce := fromBlockhash nonce.durableNonce }))
  | _ => none

def bincodeNonces (fromBlockhash : Hash → Hash) : NonceLibrary where
  size := 80
  deserialize := decodeVersions
  serialize := encodeVersions
  fromBlockhash := fromBlockhash
  verifyNonceAccount := verifyNonceAccount
  getSystemAccountKind := getSystemAccountKind
  authorize := authorize
  upgrade := upgrade fromBlockhash
  deserialize_overwrite versions data _ := decodeVersions_append versions _
  fits _ versions _ h := (length_encodeVersions_le versions).trans (length_of_decodeVersions h)
  zeroed _ _ h := decodeVersions_zeros h
  verify h := by
    rw [verifyNonceAccount] at h
    split at h
    case h_1 nonce hdecode =>
      split_ifs at h with hcond
      cases h
      exact ⟨hcond.1, hdecode, hcond.2⟩
    case h_2 => cases h
  authorized h := by
    rw [authorize.eq_def] at h
    split at h
    · split_ifs at h
      cases h
      exact ⟨_, .inl ⟨rfl, rfl⟩⟩
    · split_ifs at h
      cases h
      exact ⟨_, .inr ⟨rfl, rfl⟩⟩
    · cases h
  upgraded h := by
    rw [upgrade.eq_def] at h
    split at h
    · cases h
      exact ⟨_, _, rfl, rfl⟩
    · cases h

end Svm.Bincode
