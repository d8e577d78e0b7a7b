import Svm.Spec.Batch
import Svm.Spec.Programs.System

/-!
# Replay of a durable nonce

What the transactions of a batch may do to a nonce account between two uses of its
nonce: programs other than the system program act within the access rules of the
runtime, the system program as its model does (`ExecutionStep`).
-/

namespace Svm

open Ledger

/-- A step that the execution of a transaction takes at an account. -/
inductive ExecutionStep (env : ProcessingEnvironment) : AccountFields → AccountFields → Prop where
  | program {f f' : AccountFields} {program : Pubkey} (hprogram : program ≠ SYSTEM_PROGRAM_ID)
      (hmay : ProgramMay program f f') : ExecutionStep env f f'
  | system (sys : System.Environment) (hnonces : sys.nonces = env.nonces) (hblockhash : sys.blockhash = env.blockhash)
      {ic : InstructionContext} {rent : Rent} {instruction : System.SystemInstruction} {a a' : TransactionAccounts}
      (hprogram : a.accountKey ic.programAccountIndexInTx = some SYSTEM_PROGRAM_ID)
      (hrun : (System.processInstruction sys ic rent instruction).run a = .ok () a') (index : UInt16) :
      ExecutionStep env (a.view index).fields (a'.view index).fields

variable (env : ProcessingEnvironment)

/-- A successful execution takes each account from what was loaded by such steps. -/
def ProcessingEnvironment.Lawful : Prop :=
  ∀ message tx accounts, env.execute message tx = (.ok (), accounts) →
    List.Forall₂ (fun x x' : Pubkey × Account =>
      x'.1 = x.1 ∧ Relation.ReflTransGen (ExecutionStep env) x.2.fields x'.2.fields) tx.accounts accounts

/-- The result of a transaction of the batch when it is its turn. -/
def resultAt (config : ProcessingConfig) (store : Store) (txs : List CheckedTransaction)
    (i : Nat) : Option (Except TransactionError ProcessedTransaction) :=
  txs[i]?.map fun tx => (processTransaction env config tx.1 tx.2 (loaderAfter env config store (txs.take i))).1

/-- After its use the account still holds a nonce, which is the one of the environment's
blockhash, or it is no initialized nonce account of the system program any more. -/
def NonceUsed (f : AccountFields) : Prop :=
  f.owner = SYSTEM_PROGRAM_ID → ∀ versions data, env.nonces.deserialize f.data = some versions →
    versions.state = .Initialized data → data.durableNonce = env.nonces.fromBlockhash env.blockhash

end Svm
