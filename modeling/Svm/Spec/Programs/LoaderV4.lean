import Svm.Spec.Ledger
import Svm.Impl.Programs.LoaderV4

/-!
# The lifecycle of a loader-v4 program

What one step of the ledger may do to an account, in the loader's terms
(`Lifecycle`), and the loader's instructions as steps of the ledger (`rules`). The
history of an address is the slots it has been deployed at, the latest first.
-/

namespace Svm.LoaderV4

open Machine Ledger

/-- Where an account stands: not a program yet (or no longer), or a program with a
status. -/
inductive Phase where
  | uninitialized
  | initialized (status : Option LoaderV4Status)
  deriving DecidableEq, Repr

/-- The phase of an account, for the loader with the given id. -/
def phase (id : Pubkey) (f : AccountFields) : Phase :=
  if f.owner = id ∧ programDataOffset ≤ f.data.length then .initialized (statusOf f.data) else .uninitialized

/-- The moves of the lifecycle. -/
inductive Phase.Moves : Phase → Phase → Prop
  | stay (p : Phase) : Moves p p
  | init : Moves .uninitialized (.initialized (some .Retracted))
  | deploy : Moves (.initialized (some .Retracted)) (.initialized (some .Deployed))
  | retract : Moves (.initialized (some .Deployed)) (.initialized (some .Retracted))
  | finalize : Moves (.initialized (some .Deployed)) (.initialized (some .Finalized))
  | close : Moves (.initialized (some .Retracted)) .uninitialized

/-- The program and its length: all that is not the state. -/
def program (f : AccountFields) : Nat × List UInt8 := (f.data.length, f.data.drop programDataOffset)

/-- The rules of the lifecycle, for one action and the account at one address. -/
structure Lifecycle (id : Pubkey) (action : Action LoaderV4Instruction) (f f' : AccountFields) : Prop where
  finalized : phase id f = .initialized (some .Finalized) → f'.data = f.data ∧ f'.owner = f.owner
  moves : (phase id f).Moves (phase id f')
  /-- The program of an account changes by the authority, or goes with an account that
  has no lamports. -/
  changed : f.owner = id → program f' ≠ program f →
    (phase id f = .initialized (some .Retracted) ∧ action.SignedBy (authorityOf f.data)) ∨
    (phase id f = .uninitialized ∧ ∃ authority, action.SignedBy authority ∧
      (phase id f' ≠ .uninitialized → authorityOf f'.data = authority)) ∨
    ((phase id f = .initialized (some .Retracted) ∨ phase id f = .uninitialized) ∧
      action = .commit ∧ f.lamports = 0)
  /-- The authority changes by a transfer, or becomes the next version when the program
  is finalized. -/
  authority : phase id f ≠ .uninitialized → phase id f' ≠ .uninitialized →
    authorityOf f'.data ≠ authorityOf f.data →
    (action.SignedBy (authorityOf f.data) ∧ action.SignedBy (authorityOf f'.data) ∧
      ∃ signers, action = .instruction .TransferAuthority signers) ∨
    (phase id f = .initialized (some .Deployed) ∧ phase id f' = .initialized (some .Finalized) ∧
      ∃ signers, action = .instruction .Finalize signers)

/-! ## What an instruction does to an account -/

/-- A program whose authority has signed. -/
structure Authorized (id : Pubkey) (signers : List Pubkey) (f : AccountFields) : Prop where
  owner : f.owner = id
  length : programDataOffset ≤ f.data.length
  signed : authorityOf f.data ∈ signers

/-- The bytes of two accounts differ in their states only. -/
structure SameProgram (data data' : List UInt8) : Prop where
  length : data'.length = data.length
  program : data'.drop programDataOffset = data.drop programDataOffset

/-- A deployment: the program gets the slot, and keeps its lamports and its authority. -/
structure Deploys (id : Pubkey) (clock : UInt64) (signers : List Pubkey) (f f' : AccountFields) : Prop where
  authorized : Authorized id signers f
  retracted : statusOf f.data = some .Retracted
  fields : f' = { f with data := f'.data }
  same : SameProgram f.data f'.data
  slot : slotOf f'.data = clock
  authority : authorityOf f'.data = authorityOf f.data
  status : statusOf f'.data = some .Deployed

/-- What an instruction that succeeds may have done to an account: its changes of a
program one by one, or lamports received. -/
inductive Change (id : Pubkey) (cooldown clock : UInt64) (signers : List Pubkey) (f : AccountFields) :
    LoaderV4Instruction → AccountFields → Prop
  | credit {i : LoaderV4Instruction} {l : UInt64} (h : f.lamports ≤ l) :
      Change id cooldown clock signers f i { f with lamports := l }
  | write {i : LoaderV4Instruction} {data : List UInt8} (ha : Authorized id signers f)
      (hs : statusOf f.data = some .Retracted) (hlen : data.length = f.data.length)
      (hstate : data.take programDataOffset = f.data.take programDataOffset) :
      Change id cooldown clock signers f i { f with data := data }
  | resize {i : LoaderV4Instruction} {l : UInt64} {data : List UInt8} (ha : Authorized id signers f)
      (hs : statusOf f.data = some .Retracted) (hlen : programDataOffset ≤ data.length) (hl : l ≠ 0)
      (hstate : data.take programDataOffset = f.data.take programDataOffset) :
      Change id cooldown clock signers f i { f with lamports := l, data := data }
  | close {i : LoaderV4Instruction} {l : UInt64} (ha : Authorized id signers f)
      (hs : statusOf f.data = some .Retracted) :
      Change id cooldown clock signers f i { f with lamports := l, data := [] }
  | clear {i : LoaderV4Instruction} {l : UInt64} {authority : Pubkey} (ho : f.owner = id)
      (hlen : f.data.length < programDataOffset) (ha : authority ∈ signers) :
      Change id cooldown clock signers f i { f with lamports := l, data := [] }
  | init {i : LoaderV4Instruction} {f' : AccountFields} (ho : f.owner = id)
      (hlen : f.data.length < programDataOffset) (ha : authorityOf f'.data ∈ signers) (ho' : f'.owner = id)
      (hlen' : programDataOffset ≤ f'.data.length) (hl : f'.lamports ≠ 0)
      (hs : statusOf f'.data = some .Retracted) : Change id cooldown clock signers f i f'
  | deploy {f' : AccountFields} (h : Deploys id clock signers f f') : Change id cooldown clock signers f .Deploy f'
  | retract {data : List UInt8} (ha : Authorized id signers f) (hs : statusOf f.data = some .Deployed)
      (hcool : U64.satAdd (slotOf f.data) cooldown ≤ clock) (hsame : SameProgram f.data data)
      (hauthority : authorityOf data = authorityOf f.data) (hs' : statusOf data = some .Retracted) :
      Change id cooldown clock signers f .Retract { f with data := data }
  | transfer {data : List UInt8} (ha : Authorized id signers f) (hs : statusOf f.data ≠ some .Finalized)
      (hsame : SameProgram f.data data) (hsigned : authorityOf data ∈ signers)
      (hslot : slotOf data = slotOf f.data) (hs' : statusOf data = statusOf f.data) :
      Change id cooldown clock signers f .TransferAuthority { f with data := data }
  | finalize {data : List UInt8} (ha : Authorized id signers f) (hs : statusOf f.data = some .Deployed)
      (hsame : SameProgram f.data data) (hslot : slotOf data = slotOf f.data)
      (hs' : statusOf data = some .Finalized) :
      Change id cooldown clock signers f .Finalize { f with data := data }

/-! ## The loader on the ledger -/

/-- The slots each address has been deployed at, the latest first. -/
abbrev History := Pubkey → List UInt64

/-- A deployment is recorded under the key of the first account. -/
def record (clock : UInt64) (ic : InstructionContext) (a : TransactionAccounts) (i : LoaderV4Instruction)
    (history : History) : History :=
  match i, ic.getKeyOfInstructionAccount a 0 with
  | .Deploy, .ok key => Function.update history key (clock :: history key)
  | _, _ => history

/-- An instruction of the loader, as a step of the ledger at a slot: in any environment
with the loader's id and cooldown and with that slot on the clock. -/
def Executes (id : Pubkey) (cooldown clock : UInt64) (i : LoaderV4Instruction) (signers : List Pubkey)
    (w w' : World History) : Prop :=
  ∃ (env : Environment) (rent : Rent) (ic : InstructionContext) (a a' : TransactionAccounts),
    env.id = id ∧ env.deploymentCooldownInSlots = cooldown ∧ env.getClock = .ok clock ∧
    Invocation id (fun ic i => processInstruction env ic rent i) ic a a' i w.accounts w'.accounts ∧
    signers = ic.signers a ∧ w'.history = record clock ic a i w.history

/-- The ledger with the loader, where `canSign` says who can sign. -/
def rules (id : Pubkey) (cooldown : UInt64) (canSign : Pubkey → Prop) : Rules LoaderV4Instruction History where
  programId := id
  canSign := canSign
  instruction := Executes id cooldown
  may := fun program _ => ProgramMay program

end Svm.LoaderV4
