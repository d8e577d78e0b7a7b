import Svm.Impl.Account
import Svm.Framework.Bytes

/-!
# Durable nonces

The state of a nonce account, and what the crates `solana_nonce` and
`solana_nonce_account` do with it. Their code is not part of the repository: the
functions are fields of `NonceLibrary`, which carries what they are documented to do.
-/

namespace Svm

abbrev Hash := Vector UInt8 32

/-- The id of the system program: 32 zeros. -/
def SYSTEM_PROGRAM_ID : Pubkey := .replicate 32 0

structure NonceData where
  authority : Pubkey
  durableNonce : Hash
  lamportsPerSignature : UInt64
deriving DecidableEq, Repr

inductive NonceState where
  | Uninitialized
  | Initialized (data : NonceData)
deriving DecidableEq, Repr

inductive NonceVersions where
  | Legacy (state : NonceState)
  | Current (state : NonceState)
deriving DecidableEq, Repr

namespace NonceVersions

def state : NonceVersions → NonceState
  | .Legacy state | .Current state => state

/-- `Versions::new`. -/
def new (state : NonceState) : NonceVersions := .Current state

end NonceVersions

inductive AuthorizeNonceError where
  | MissingRequiredSignature
  | Uninitialized
deriving DecidableEq, Repr

/-- `SystemAccountKind` of `solana_nonce_account`. -/
inductive SystemAccountKind where
  | System
  | Nonce
deriving DecidableEq, Repr

/-- The nonce crates, with what they are documented to do. -/
structure NonceLibrary where
  /-- `State::size()`. -/
  size : Nat
  /-- `account.state()`: trailing bytes are allowed. -/
  deserialize : List UInt8 → Option NonceVersions
  serialize : NonceVersions → List UInt8
  /-- `DurableNonce::from_blockhash`. -/
  fromBlockhash : Hash → Hash
  verifyNonceAccount : (owner : Pubkey) → (data : List UInt8) → (recentBlockhash : Hash) → Option NonceData
  getSystemAccountKind : (owner : Pubkey) → (data : List UInt8) → Option SystemAccountKind
  authorize : NonceVersions → (signers : List Pubkey) → (authority : Pubkey) →
    Except AuthorizeNonceError NonceVersions
  upgrade : NonceVersions → Option NonceVersions
  /-- A state that fits is read back. -/
  deserialize_overwrite : ∀ (versions : NonceVersions) (data : List UInt8),
    (serialize versions).length ≤ data.length →
      deserialize (Bytes.overwrite data 0 (serialize versions)) = some versions
  /-- An initialized nonce account has room for every state. -/
  fits : ∀ (data : List UInt8) (versions : NonceVersions) (nonce : NonceData),
    deserialize data = some (.Current (.Initialized nonce)) → (serialize versions).length ≤ data.length
  /-- Zeroed data is no initialized nonce. -/
  zeroed : ∀ (n : Nat) (versions : NonceVersions),
    deserialize (List.replicate n 0) = some versions → versions.state = .Uninitialized
  /-- The account is owned by the system program, parses as initialized, and the stored
  durable nonce is the blockhash. -/
  verify : ∀ {owner : Pubkey} {data : List UInt8} {recentBlockhash : Hash} {nonce : NonceData},
    verifyNonceAccount owner data recentBlockhash = some nonce →
      owner = SYSTEM_PROGRAM_ID ∧ deserialize data = some (.Current (.Initialized nonce)) ∧
        nonce.durableNonce = recentBlockhash
  /-- A new authority changes neither the version nor the nonce. -/
  authorized : ∀ {versions versions' : NonceVersions} {signers : List Pubkey} {authority : Pubkey},
    authorize versions signers authority = .ok versions' →
      ∃ nonce, (versions = .Legacy (.Initialized nonce) ∧
          versions' = .Legacy (.Initialized { nonce with authority := authority })) ∨
        (versions = .Current (.Initialized nonce) ∧
          versions' = .Current (.Initialized { nonce with authority := authority }))
  /-- Only a legacy nonce is upgraded. -/
  upgraded : ∀ {versions versions' : NonceVersions}, upgrade versions = some versions' →
    ∃ nonce nonce', versions = .Legacy (.Initialized nonce) ∧ versions' = .Current (.Initialized nonce')

end Svm
