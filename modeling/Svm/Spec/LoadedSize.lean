import Mathlib.Algebra.BigOperators.Group.Finset.Basic
import Svm.Spec.Overlay

/-!
# The size of the loaded accounts

A transaction is charged for each of its lookup tables, for each of its accounts that is
in the store, and once for each programdata account that one of its programs of loader-v3
names and that it does not list itself. `loadedSize` is this sum, without an order of the
accounts and without a bound.
-/

namespace Svm

/-- What an account in the store is charged with. -/
def Account.chargedSize (account : Account) : Nat := TRANSACTION_ACCOUNT_BASE_SIZE + account.data.length

/-- The size charged for an address, where nothing is charged for no account. -/
def sizeAt (account : Option Account) : Nat := (account.map Account.chargedSize).getD 0

/-- The programdata account that a program of loader-v3 names. -/
def LoadEnvironment.programdataOf (env : LoadEnvironment) (account : Account) : Option Pubkey :=
  if account.owner = env.bpfLoaderUpgradeableId then env.programdataAddress account.data else none

namespace AccountLoader

/-- The account at the address, if there is one. -/
def stored (l : AccountLoader) (key : Pubkey) : Option Account := (l.view key).map Prod.fst

/-- The account at an address of a message. The instructions sysvar is not in the store. -/
def messageAccount (l : AccountLoader) (env : LoadEnvironment) (key : Pubkey) : Option Account :=
  if key = env.sysvarInstructionsId then none else l.stored key

/-- The programdata account that the account at an address of a message names. -/
def programdataAt (l : AccountLoader) (env : LoadEnvironment) (key : Pubkey) : Option Pubkey :=
  (l.messageAccount env key).bind env.programdataOf

end AccountLoader

/-- The programdata accounts that accounts of the message name and that are not among
its accounts. -/
def namedProgramdata (env : LoadEnvironment) (l : AccountLoader) (message : SVMTransaction) (keys : List Pubkey) :
    Finset Pubkey :=
  (keys.filterMap (l.programdataAt env)).toFinset.filter (· ∉ message.accountKeys)

def loadedSize (env : LoadEnvironment) (l : AccountLoader) (message : SVMTransaction) : Nat :=
  message.numLookupTables * ADDRESS_LOOKUP_TABLE_BASE_SIZE +
    (message.accountKeys.map fun key => sizeAt (l.messageAccount env key)).sum +
    ∑ key ∈ namedProgramdata env l message message.accountKeys, sizeAt (l.stored key)

/-- The fee payer was loaded from the account that is still in the loader; the fee only
changes its lamports. -/
structure PayerLoaded (env : LoadEnvironment) (l : AccountLoader) (message : SVMTransaction)
    (payer : LoadedTransactionAccount) : Prop where
  ordinary : message.feePayer ≠ env.sysvarInstructionsId
  stored : ∃ account, l.stored message.feePayer = some account ∧ payer.account.data = account.data ∧
    payer.account.owner = account.owner
  size : payer.loadedSize = Machine.satAdd 64 TRANSACTION_ACCOUNT_BASE_SIZE payer.account.data.length

/-- The message names an account once and its fee payer first, and its programs exist and
are owned by a loader. -/
structure Loadable (env : LoadEnvironment) (l : AccountLoader) (message : SVMTransaction) : Prop where
  nodup : message.accountKeys.Nodup
  feePayer : message.accountKeys.head? = some message.feePayer
  programs : ∀ entry ∈ message.programInstructions, ∃ account, l.stored entry.1 = some account ∧
    account.lamports ≠ 0 ∧ (account.owner = env.nativeLoaderId ∨ account.owner ∈ env.programOwners)

/-- The same transaction with its accounts after the fee payer in another order. -/
structure Reordered (message message' : SVMTransaction) : Prop where
  feePayer : message'.feePayer = message.feePayer
  first : message'.accountKeys.head? = message.accountKeys.head?
  accounts : message'.accountKeys.Perm message.accountKeys
  tables : message'.numLookupTables = message.numLookupTables
  programs : message'.programInstructions.map Prod.fst = message.programInstructions.map Prod.fst

/-- The instructions sysvar and an account that does not exist are not of loader-v3. -/
structure LoadEnvironment.LoaderApart (env : LoadEnvironment) : Prop where
  sysvar : env.sysvarId ≠ env.bpfLoaderUpgradeableId
  system : Account.default.owner ≠ env.bpfLoaderUpgradeableId

end Svm
