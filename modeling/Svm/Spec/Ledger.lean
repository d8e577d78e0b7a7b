import Svm.Impl.Nonce
import Svm.Impl.Serialization
import Mathlib.Logic.Relation

/-!
# A ledger of accounts, and one native program

What a native program may rely on over many transactions. A transaction works on
the pending accounts; a failing instruction discards them all (`Action.abort`),
and at the end of a transaction that succeeds every account without lamports is
removed (`Action.commit`). The instructions of the program itself are those of its
model, run on accounts that represent the ledger (`Invocation`); every other
program is free within the access rules of the runtime (`ProgramMay`). `Reach` is
any sequence of these.
-/

namespace Svm

/-- The fields of an account that outlive a transaction, its rent epoch apart. -/
@[ext] structure AccountFields where
  lamports : UInt64
  data : List UInt8
  owner : Pubkey
  executable : Bool
  deriving DecidableEq, Repr

def TransactionAccountView.fields (v : TransactionAccountView) : AccountFields :=
  ⟨v.lamports, v.data, v.owner, v.executable⟩

/-- The keys that have signed for the accounts of an instruction. -/
def InstructionContext.signers (ic : InstructionContext) (a : TransactionAccounts) : List Pubkey :=
  ic.instructionAccounts.filterMap fun account =>
    if account.isSigner then a.accountKey account.indexInTransaction else none

namespace Ledger

abbrev Accounts := Pubkey → AccountFields

/-- What is read at an address without an account. -/
def absent : AccountFields := ⟨0, [], SYSTEM_PROGRAM_ID, false⟩

/-- The accounts of a transaction are those of the ledger at their keys. -/
structure Represents (a : TransactionAccounts) (w : Accounts) : Prop where
  indexed : a.len ≤ 2 ^ 16
  nodup : a.accountKeys.Nodup
  fields : ∀ s ∈ a.slots, s.view.fields = w s.view.key

/-- An instruction `i` of the program `programId`, in any instruction context, succeeds
and takes the ledger from `w` to `w'`. -/
structure Invocation {ι : Type} (programId : Pubkey) (process : InstructionContext → ι → AccountsM Unit)
    (ic : InstructionContext) (a a' : TransactionAccounts) (i : ι) (w w' : Accounts) : Prop where
  before : Represents a w
  program : a.accountKey ic.programAccountIndexInTx = some programId
  run : (process ic i).run a = .ok () a'
  after : Represents a' w'
  others : ∀ key, key ∉ a.accountKeys → w' key = w key

/-- What a program may do to the account at one address in one instruction: without
owning it, only add lamports; and it gives an account away only when every byte is
zero. -/
structure ProgramMay (program : Pubkey) (f f' : AccountFields) : Prop where
  notOwned : f.owner ≠ program →
    f'.data = f.data ∧ f'.owner = f.owner ∧ f'.executable = f.executable ∧ f.lamports ≤ f'.lamports
  assigned : f'.owner ≠ f.owner → ∀ byte ∈ f'.data, byte = 0

/-- The accounts, and what is recorded about their past. -/
@[ext] structure World (γ : Type) where
  accounts : Accounts
  history : γ

/-- Accounts without lamports are removed. -/
def World.collect {γ : Type} (w : World γ) : World γ :=
  { w with accounts := fun key => if (w.accounts key).lamports = 0 then absent else w.accounts key }

inductive Action (ι : Type) where
  | instruction (i : ι) (signers : List Pubkey)
  | other (program : Pubkey)
  | commit
  | abort
  | tick

/-- The program under study, who can sign, and what another program may do at an
address. -/
structure Rules (ι γ : Type) where
  programId : Pubkey
  canSign : Pubkey → Prop
  instruction : (clock : UInt64) → (i : ι) → (signers : List Pubkey) → World γ → World γ → Prop
  may : (program key : Pubkey) → AccountFields → AccountFields → Prop

structure State (γ : Type) where
  committed : World γ
  pending : World γ
  clock : UInt64

variable {ι γ : Type}

/-- One step of the ledger. The clock never goes back. -/
inductive Step (r : Rules ι γ) : Action ι → State γ → State γ → Prop
  | instruction {s : State γ} {i : ι} {signers : List Pubkey} {w : World γ}
      (hsign : ∀ key ∈ signers, r.canSign key) (h : r.instruction s.clock i signers s.pending w) :
      Step r (.instruction i signers) s { s with pending := w }
  | other {s : State γ} {program : Pubkey} {accounts : Accounts} (hprogram : program ≠ r.programId)
      (h : ∀ key, r.may program key (s.pending.accounts key) (accounts key)) :
      Step r (.other program) s { s with pending := { s.pending with accounts := accounts } }
  | commit {s : State γ} :
      Step r .commit s { s with committed := s.pending.collect, pending := s.pending.collect }
  | abort {s : State γ} : Step r .abort s { s with pending := s.committed }
  | tick {s : State γ} {slot : UInt64} (h : s.clock ≤ slot) : Step r .tick s { s with clock := slot }

/-- Any number of steps. -/
def Reach (r : Rules ι γ) : State γ → State γ → Prop :=
  Relation.ReflTransGen fun s s' => ∃ action, Step r action s s'

/-- Between two transactions: nothing is pending, and no account is without lamports. -/
structure State.Settled (s : State γ) : Prop where
  pending : s.pending = s.committed
  funded : ∀ key, (s.committed.accounts key).lamports = 0 → s.committed.accounts key = absent

/-- The key has signed the instruction that the action is. -/
def Action.SignedBy (action : Action ι) (key : Pubkey) : Prop :=
  ∃ i signers, action = .instruction i signers ∧ key ∈ signers

end Ledger

end Svm
