import Svm.Impl.Programs.System
import Svm.Spec.Ledger

/-!
# What the system program does to an account

Every instruction of the system program is, at each address, a number of elementary
changes (`Change`): the lamports change, an empty account is allocated or a zeroed one
assigned, with the signature of its address or of the base it derives from, or a state
is written to a nonce account (`NonceStep`).
-/

namespace Svm.System

/-- The address has signed, or the base that it derives from. -/
def Signed (env : Environment) (signers : List Pubkey) (key : Pubkey) : Prop :=
  key ∈ signers ∨ ∃ base seed owner, base ∈ signers ∧ env.createWithSeed base seed owner = .ok key

/-- From one state of a nonce account to the next. -/
inductive NonceStep (env : Environment) : NonceVersions → NonceVersions → Prop where
  | advance {versions : NonceVersions} {data : NonceData} (hstate : versions.state = .Initialized data)
      (hnonce : data.durableNonce ≠ env.nonces.fromBlockhash env.blockhash) :
      NonceStep env versions (.Current (.Initialized (nextData env data.authority)))
  | withdraw {versions : NonceVersions} {data : NonceData} (hstate : versions.state = .Initialized data)
      (hnonce : data.durableNonce ≠ env.nonces.fromBlockhash env.blockhash) :
      NonceStep env versions (.Current .Uninitialized)
  | init {versions : NonceVersions} (hstate : versions.state = .Uninitialized) (authority : Pubkey) :
      NonceStep env versions (.Current (.Initialized (nextData env authority)))
  | authorize {versions versions' : NonceVersions} {signers : List Pubkey} {authority : Pubkey}
      (h : env.nonces.authorize versions signers authority = .ok versions') : NonceStep env versions versions'
  | upgrade {versions versions' : NonceVersions} (h : env.nonces.upgrade versions = some versions') :
      NonceStep env versions versions'

/-- An elementary change of the account at an address. -/
inductive Change (env : Environment) (signers : List Pubkey) (key : Pubkey) :
    AccountFields → AccountFields → Prop where
  | lamports {f : AccountFields} (lamports : UInt64) (h : f.owner = SYSTEM_PROGRAM_ID ∨ f.lamports ≤ lamports) :
      Change env signers key f { f with lamports := lamports }
  | allocate {f : AccountFields} (hsigned : Signed env signers key) (howner : f.owner = SYSTEM_PROGRAM_ID)
      (hdata : f.data = []) (space : Nat) : Change env signers key f { f with data := List.replicate space 0 }
  | assign {f : AccountFields} (hsigned : Signed env signers key) (howner : f.owner = SYSTEM_PROGRAM_ID)
      (hdata : ∀ byte ∈ f.data, byte = 0) (owner : Pubkey) : Change env signers key f { f with owner := owner }
  | nonce {f : AccountFields} {versions versions' : NonceVersions} (howner : f.owner = SYSTEM_PROGRAM_ID)
      (hdata : env.nonces.deserialize f.data = some versions) (hstep : NonceStep env versions versions')
      (hfits : (env.nonces.serialize versions').length ≤ f.data.length) :
      Change env signers key f { f with data := Bytes.overwrite f.data 0 (env.nonces.serialize versions') }

end Svm.System
