import Svm.Spec.Programs.System

/-!
# The policy of the system program

`Effect` is what one instruction of the system program does to the account at an address,
with who signed for it. Two policies are read off it: who may take lamports, space, data
or the owner from an account (`Authorised`), and how the state of a nonce account changes
(`NonceRules`), along any number of transactions (`NonceReach`).
-/

namespace Svm

/-- The account with another state of a nonce written to its data. -/
def AccountFields.withVersions (nonces : NonceLibrary) (f : AccountFields) (versions : NonceVersions) : AccountFields :=
  { f with data := Bytes.overwrite f.data 0 (nonces.serialize versions) }

/-- The state of a nonce account, if the data is one. -/
def AccountFields.nonceState (nonces : NonceLibrary) (f : AccountFields) : Option NonceState :=
  (nonces.deserialize f.data).map NonceVersions.state

/-- What else the nonce crates are documented to do: a new authority needs the signature of
the old one, and an upgrade keeps the authority. -/
structure NonceLibrary.Documented (nonces : NonceLibrary) : Prop where
  authorize_signed : ∀ {versions versions' : NonceVersions} {signers : List Pubkey} {authority : Pubkey}
    {data : NonceData}, nonces.authorize versions signers authority = .ok versions' →
    versions.state = .Initialized data → data.authority ∈ signers
  upgrade_authority : ∀ {versions versions' : NonceVersions} {data data' : NonceData},
    nonces.upgrade versions = some versions' → versions.state = .Initialized data →
    versions'.state = .Initialized data' → data'.authority = data.authority

namespace System

open AccountFields

/-- What an instruction that succeeds does to the account at `key`. -/
inductive Effect (env : Environment) (signers : List Pubkey) (key : Pubkey) :
    SystemInstruction → AccountFields → AccountFields → Prop where
  | same {i : SystemInstruction} {f : AccountFields} : Effect env signers key i f f
  | credit {i : SystemInstruction} {f : AccountFields} {lamports : UInt64} (h : f.lamports ≤ lamports) :
      Effect env signers key i f { f with lamports := lamports }
  | pay {i : SystemInstruction} {f : AccountFields} {lamports : UInt64} (hsigned : Signed env signers key)
      (hdata : f.data = []) (howner : f.owner = SYSTEM_PROGRAM_ID ∨ f.lamports ≤ lamports) :
      Effect env signers key i f { f with lamports := lamports }
  | create {i : SystemInstruction} {f : AccountFields} {lamports : UInt64} (hsigned : Signed env signers key)
      (howner : f.owner = SYSTEM_PROGRAM_ID) (hdata : f.data = []) (h : f.lamports ≤ lamports) (space : Nat)
      (owner : Pubkey) :
      Effect env signers key i f { f with lamports := lamports, data := List.replicate space 0, owner := owner }
  | assign {i : SystemInstruction} {f : AccountFields} (hsigned : Signed env signers key)
      (howner : f.owner = SYSTEM_PROGRAM_ID) (hdata : ∀ byte ∈ f.data, byte = 0) (owner : Pubkey) :
      Effect env signers key i f { f with owner := owner }
  | advance {f : AccountFields} {versions : NonceVersions} {data : NonceData}
      (howner : f.owner = SYSTEM_PROGRAM_ID)
      (hdata : env.nonces.deserialize f.data = some versions) (hstate : versions.state = .Initialized data)
      (hsigned : data.authority ∈ signers) (hnonce : data.durableNonce ≠ env.nonces.fromBlockhash env.blockhash)
      (hfits : (env.nonces.serialize (.Current (.Initialized (nextData env data.authority)))).length ≤ f.data.length) :
      Effect env signers key .AdvanceNonceAccount f
        (withVersions env.nonces f (.Current (.Initialized (nextData env data.authority))))
  | withdrawUninitialized {f : AccountFields} {versions : NonceVersions} {lamports rest : UInt64}
      (hdata : env.nonces.deserialize f.data = some versions) (hstate : versions.state = .Uninitialized)
      (hsigned : key ∈ signers) (howner : f.owner = SYSTEM_PROGRAM_ID ∨ f.lamports ≤ rest) :
      Effect env signers key (.WithdrawNonceAccount lamports) f { f with lamports := rest }
  | withdrawPart {f : AccountFields} {versions : NonceVersions} {data : NonceData} {lamports rest : UInt64}
      {minimumBalance : Nat → UInt64} (hdata : env.nonces.deserialize f.data = some versions)
      (hstate : versions.state = .Initialized data) (hsigned : data.authority ∈ signers)
      (hrent : env.getRent = .ok minimumBalance) (hleft : minimumBalance f.data.length ≤ rest)
      (howner : f.owner = SYSTEM_PROGRAM_ID ∨ f.lamports ≤ rest) :
      Effect env signers key (.WithdrawNonceAccount lamports) f { f with lamports := rest }
  | withdrawAll {f : AccountFields} {versions : NonceVersions} {data : NonceData} {rest : UInt64}
      (howner : f.owner = SYSTEM_PROGRAM_ID)
      (hdata : env.nonces.deserialize f.data = some versions) (hstate : versions.state = .Initialized data)
      (hsigned : data.authority ∈ signers) (hnonce : data.durableNonce ≠ env.nonces.fromBlockhash env.blockhash)
      (hfits : (env.nonces.serialize (.Current .Uninitialized)).length ≤ f.data.length) :
      Effect env signers key (.WithdrawNonceAccount f.lamports) f
        { withVersions env.nonces f (.Current .Uninitialized) with lamports := rest }
  | init {f : AccountFields} {versions : NonceVersions} {authority : Pubkey} {minimumBalance : Nat → UInt64}
      (howner : f.owner = SYSTEM_PROGRAM_ID)
      (hdata : env.nonces.deserialize f.data = some versions) (hstate : versions.state = .Uninitialized)
      (hrent : env.getRent = .ok minimumBalance) (hfunded : minimumBalance f.data.length ≤ f.lamports)
      (hfits : (env.nonces.serialize (.Current (.Initialized (nextData env authority)))).length ≤ f.data.length) :
      Effect env signers key (.InitializeNonceAccount authority) f
        (withVersions env.nonces f (.Current (.Initialized (nextData env authority))))
  | authorize {f : AccountFields} {versions versions' : NonceVersions} {authority : Pubkey}
      (howner : f.owner = SYSTEM_PROGRAM_ID)
      (hdata : env.nonces.deserialize f.data = some versions)
      (h : env.nonces.authorize versions signers authority = .ok versions')
      (hfits : (env.nonces.serialize versions').length ≤ f.data.length) :
      Effect env signers key (.AuthorizeNonceAccount authority) f (withVersions env.nonces f versions')
  | upgrade {f : AccountFields} {versions versions' : NonceVersions}
      (howner : f.owner = SYSTEM_PROGRAM_ID)
      (hdata : env.nonces.deserialize f.data = some versions) (h : env.nonces.upgrade versions = some versions')
      (hfits : (env.nonces.serialize versions').length ≤ f.data.length) :
      Effect env signers key .UpgradeNonceAccount f (withVersions env.nonces f versions')

/-! ## Authorisation -/

/-- The authority of a nonce account has signed, or the account itself while it has none. -/
def NonceSigned (signers : List Pubkey) (key : Pubkey) : NonceState → Prop
  | .Uninitialized => key ∈ signers
  | .Initialized data => data.authority ∈ signers

/-- Who allows a change of the account at `key` from `f` to `f'`. -/
structure Authorised (env : Environment) (signers : List Pubkey) (key : Pubkey) (f f' : AccountFields) : Prop where
  debited : f'.lamports < f.lamports → Signed env signers key ∨
    f.owner = SYSTEM_PROGRAM_ID ∧ ∃ state, nonceState env.nonces f = some state ∧ NonceSigned signers key state
  assigned : f'.owner ≠ f.owner →
    f.owner = SYSTEM_PROGRAM_ID ∧ Signed env signers key ∧ ∀ byte ∈ f.data, byte = 0
  resized : f'.data.length ≠ f.data.length → f.owner = SYSTEM_PROGRAM_ID ∧ Signed env signers key ∧ f.data = []
  written : f'.data ≠ f.data → f'.data.length = f.data.length → (nonceState env.nonces f).isSome

/-! ## The state of a nonce account -/

/-- While a nonce is initialized its account has the rent minimum for its size. -/
def NonceFunded (nonces : NonceLibrary) (minimumBalance : Nat → UInt64) (f : AccountFields) : Prop :=
  f.owner = SYSTEM_PROGRAM_ID → ∀ data, nonceState nonces f = some (.Initialized data) → minimumBalance f.data.length ≤ f.lamports

/-- How the instruction `i` may change the state of a nonce account. -/
structure NonceRules (env : Environment) (signers : List Pubkey) (i : SystemInstruction) (f f' : AccountFields) :
    Prop where
  /-- The authority changes only if it has signed for it. -/
  authority : ∀ data data', nonceState env.nonces f = some (.Initialized data) →
    nonceState env.nonces f' = some (.Initialized data') → data'.authority ≠ data.authority →
    i = .AuthorizeNonceAccount data'.authority ∧ data.authority ∈ signers
  /-- An account becomes initialized only from an uninitialized state. -/
  initialized : ∀ data', nonceState env.nonces f' = some (.Initialized data') →
    (∀ data, nonceState env.nonces f ≠ some (.Initialized data)) →
    nonceState env.nonces f = some .Uninitialized ∧ i = .InitializeNonceAccount data'.authority
  /-- The durable nonce changes only by an advance that the authority has signed, or by the
  upgrade of a legacy state. -/
  durableNonce : ∀ data data', nonceState env.nonces f = some (.Initialized data) →
    nonceState env.nonces f' = some (.Initialized data') → data'.durableNonce ≠ data.durableNonce →
    (i = .AdvanceNonceAccount ∧ data.authority ∈ signers) ∨
      (i = .UpgradeNonceAccount ∧ ∃ state, env.nonces.deserialize f.data = some (.Legacy state))
  /-- An advance gives another nonce. -/
  advanced : ∀ data, i = .AdvanceNonceAccount → nonceState env.nonces f = some (.Initialized data) →
    f'.data ≠ f.data → data.authority ∈ signers ∧ ∃ data',
      nonceState env.nonces f' = some (.Initialized data') ∧ data'.durableNonce ≠ data.durableNonce
  /-- A nonce is given up only with the whole balance, signed by the authority, and when it
  is not the one of the current blockhash. -/
  closed : ∀ data, nonceState env.nonces f = some (.Initialized data) →
    (∀ data', nonceState env.nonces f' ≠ some (.Initialized data')) →
    i = .WithdrawNonceAccount f.lamports ∧ data.authority ∈ signers ∧
      data.durableNonce ≠ env.nonces.fromBlockhash env.blockhash ∧ nonceState env.nonces f' = some .Uninitialized
  /-- An initialized nonce account is not given to another owner. -/
  owner : ∀ data, nonceState env.nonces f = some (.Initialized data) → f'.owner = f.owner

/-- The accounts of the transactions that succeeded, and those of the one that runs. -/
structure Transactions where
  committed : Ledger.Accounts
  pending : Ledger.Accounts

/-- A successful instruction, under any blockhash, signers and account list. -/
structure Execution (nonces : NonceLibrary) (minimumBalance : Nat → UInt64) (env : Environment)
    (ic : InstructionContext) (rent : Rent) (a a' : TransactionAccounts) (i : SystemInstruction)
    (w w' : Ledger.Accounts) : Prop where
  library : env.nonces = nonces
  minimum : ∀ minimum, env.getRent = .ok minimum → minimum = minimumBalance
  invocation : Ledger.Invocation SYSTEM_PROGRAM_ID (fun ic => processInstruction env ic rent) ic a a' i w w'

/-- A step: an instruction of the running transaction, its end, or its failure, which
discards what it did. -/
inductive TransactionStep (nonces : NonceLibrary) (minimumBalance : Nat → UInt64) : Transactions → Transactions → Prop
  | instruction {s : Transactions} {env : Environment} {ic : InstructionContext} {rent : Rent}
      {a a' : TransactionAccounts} {i : SystemInstruction} {w : Ledger.Accounts}
      (h : Execution nonces minimumBalance env ic rent a a' i s.pending w) :
      TransactionStep nonces minimumBalance s { s with pending := w }
  | commit {s : Transactions} : TransactionStep nonces minimumBalance s { s with committed := s.pending }
  | abort {s : Transactions} : TransactionStep nonces minimumBalance s { s with pending := s.committed }

def NonceReach (nonces : NonceLibrary) (minimumBalance : Nat → UInt64) : Transactions → Transactions → Prop :=
  Relation.ReflTransGen (TransactionStep nonces minimumBalance)

end System

end Svm
