import Svm.Impl.Processor.TransactionProcessor

/-!
# Executing a loaded transaction

`execute_loaded_transaction` of `transaction_processor.rs` around `process_message`,
with the rent states of `transaction_account_state_info.rs` that it compares before and
after. What the instructions do to the accounts is a parameter: a transaction context
keeps the keys of its accounts, and no account is borrowed outside of
`process_message`. Logs, return data and the recorded instructions are left out.
-/

namespace Svm

open Run

/-- `None` for an account that is not writable. -/
structure TransactionAccountStateInfo where
  rentState : Option RentState
deriving DecidableEq, Repr

/-- `check_rent_state`. The account exists if its rent states do. -/
def checkRentState (env : LoadEnvironment) (preRentState postRentState : Option RentState)
    (accounts : List (Pubkey × Account)) (index : UInt16) : Except TransactionError Unit :=
  match preRentState, postRentState, accounts[index.toNat]? with
  | some preRentState, some postRentState, some (address, _) =>
    checkRentStateWithAccount env preRentState postRentState address index.toNat
  | _, _, _ => .ok ()

namespace TransactionAccountStateInfo

def new (rent : Rent) (message : SVMTransaction) (accounts : List (Pubkey × Account)) :
    List TransactionAccountStateInfo :=
  (List.range message.accountKeys.length).map fun i =>
    ⟨if message.isWritable i then
      (accounts[(UInt16.ofNat i).toNat]?).map fun (_, account) =>
        getAccountRentState rent account.lamports account.data.length
    else none⟩

def verifyChanges (env : LoadEnvironment) (preStateInfos postStateInfos : List TransactionAccountStateInfo)
    (accounts : List (Pubkey × Account)) : Except TransactionError Unit :=
  (preStateInfos.zip postStateInfos).zipIdx.forM fun ((preStateInfo, postStateInfo), i) =>
    checkRentState env preStateInfo.rentState postStateInfo.rentState accounts (.ofNat i)

end TransactionAccountStateInfo

def transactionAccountsLamportsSum (accounts : List (Pubkey × Account)) : Option Nat :=
  accounts.foldlM (fun sum (_, account) => Machine.checkedAdd 128 sum account.lamports.toNat) 0

/-- `process_message`: its status and the contents of the accounts after it. -/
abbrev ProcessMessage := SVMTransaction → List (Pubkey × Account) → Except TransactionError Unit × (Nat → Account)

/-- The status, and the accounts after the execution. -/
def executeTransaction (env : LoadEnvironment) (processMessage : ProcessMessage) (message : SVMTransaction)
    (loadedTransaction : LoadedTransaction) : Except TransactionError Unit × List (Pubkey × Account) :=
  let transactionAccounts := loadedTransaction.accounts
  let lamportsBeforeTx := (transactionAccountsLamportsSum transactionAccounts).getD 0
  let preAccountStateInfo := TransactionAccountStateInfo.new env.rent message transactionAccounts
  let (processResult, contents) := processMessage message transactionAccounts
  let accounts := transactionAccounts.mapIdx fun i (key, _) => (key, contents i)
  let status := do
    processResult
    TransactionAccountStateInfo.verifyChanges env preAccountStateInfo
      (TransactionAccountStateInfo.new env.rent message accounts) accounts
  if status.isOk && ((transactionAccountsLamportsSum accounts).filter (lamportsBeforeTx == ·)).isNone then
    (.error .UnbalancedTransaction, accounts)
  else (status, accounts)

/-- The environment in which transactions are executed so. -/
def ProcessingEnvironment.executing (env : ProcessingEnvironment) (processMessage : ProcessMessage) :
    ProcessingEnvironment :=
  { env with execute := executeTransaction env.toLoadEnvironment processMessage }

end Svm
