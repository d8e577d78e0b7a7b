import Svm.Impl.Programs.LoaderV3
import Svm.Spec.Ledger

/-!
# What loader v3 does on the ledger

Each instruction that succeeds is one `Effect` on the accounts of the ledger, with every
account it changes. Over these are stated who decides about an account (`Policy`) and
what has happened to a program (`Past`), and the loader's instructions become steps of
the ledger (`rules`).
-/

namespace Svm.LoaderV3

open Ledger UpgradeableLoaderState

/-- A loader: its id, its states, and `find_program_address` of a program's address. -/
structure Loader where
  id : Pubkey
  states : StateLibrary
  programdataAddress : (program : Pubkey) → Pubkey

variable (L : Loader)

/-- The state of an account, if it is one of the loader. -/
def Loader.stateOf (f : AccountFields) : Option UpgradeableLoaderState :=
  if f.owner = L.id then L.states.deserialize f.data else none

/-- The account with a state written to the start of its data. -/
def Loader.withState (f : AccountFields) (state : UpgradeableLoaderState) : AccountFields :=
  { f with data := Bytes.overwrite f.data 0 (L.states.serialize state) }

/-- The program in a ProgramData account. -/
def programOf (f : AccountFields) : List UInt8 := f.data.drop sizeOfProgramdataMetadata

/-- The program in a Buffer account. -/
def bufferedProgramOf (f : AccountFields) : List UInt8 := f.data.drop sizeOfBufferMetadata

/-- An instruction with its accounts by position. -/
structure Call where
  instruction : UpgradeableLoaderInstruction
  accounts : UInt16 → Option Pubkey

/-! ## The effects of the instructions -/

section Effects

variable (L : Loader) (clock : UInt64) (signers : List Pubkey) (call : Call)

/-- An account of the loader becomes a Buffer. -/
structure Initializes (buffer authority : Pubkey) (w w' : Accounts) : Prop where
  instruction : call.instruction = .InitializeBuffer
  before : L.stateOf (w buffer) = some .Uninitialized
  fits : sizeOfBufferMetadata ≤ (w buffer).data.length
  after : w' = Function.update w buffer (L.withState (w buffer) (.Buffer (some authority)))

/-- The authority of a Buffer writes to it, behind its state. -/
structure Writes (buffer authority : Pubkey) (start : Nat) (bytes : List UInt8) (w w' : Accounts) : Prop where
  instruction : ∃ offset, call.instruction = .Write offset bytes
  before : L.stateOf (w buffer) = some (.Buffer (some authority))
  signed : authority ∈ signers
  behind : sizeOfBufferMetadata ≤ start
  fits : start + bytes.length ≤ (w buffer).data.length
  after : w' = Function.update w buffer
    { w buffer with data := Bytes.overwrite (w buffer).data start bytes }

/-- An authority is replaced. -/
inductive Reassigned (authority : Pubkey) : UpgradeableLoaderState → UpgradeableLoaderState → Prop
  | buffer (newAuthority : Pubkey) : Reassigned authority (.Buffer (some authority)) (.Buffer (some newAuthority))
  | programData (slot : UInt64) (newAuthority : Option Pubkey) :
      Reassigned authority (.ProgramData slot (some authority)) (.ProgramData slot newAuthority)

/-- The authority of an account signs for its replacement. -/
structure Reassigns (account authority : Pubkey) (state state' : UpgradeableLoaderState) (w w' : Accounts) : Prop where
  instruction : call.instruction = .SetAuthority ∨ call.instruction = .SetAuthorityChecked
  before : L.stateOf (w account) = some state
  reassigned : Reassigned authority state state'
  signed : authority ∈ signers
  fits : state'.serializedSize ≤ (w account).data.length
  after : w' = Function.update w account (L.withState (w account) state')

/-- A Buffer whose program was taken. -/
def Emptied (f f' : AccountFields) : Prop :=
  f' = { f with lamports := 0, data := f.data.take sizeOfBufferMetadata }

/-- Only the lamports of an account may change. -/
def Paid (f f' : AccountFields) : Prop := ∃ lamports, f' = { f with lamports := lamports }

/-- An account gets lamports, or stays. -/
def Credited (f f' : AccountFields) : Prop := ∃ lamports, f.lamports ≤ lamports ∧ f' = { f with lamports := lamports }

/-- The accounts of a deployment. -/
structure DeployKeys where
  payer : Pubkey
  programdata : Pubkey
  program : Pubkey
  buffer : Pubkey
  authority : Pubkey

/-- The program of a Buffer is deployed: a ProgramData account is created for it. -/
structure Deploys (k : DeployKeys) (w w' : Accounts) : Prop where
  instruction : ∃ maxDataLen, call.instruction = .DeployWithMaxDataLen maxDataLen
  program_named : call.accounts 2 = some k.program
  derived : k.programdata = L.programdataAddress k.program
  programdata_before : (w k.programdata).data = [] ∧ (w k.programdata).owner = SYSTEM_PROGRAM_ID
  program_before : L.stateOf (w k.program) = some .Uninitialized
  buffer_before : L.stateOf (w k.buffer) = some (.Buffer (some k.authority))
  payer_before : (w k.payer).data = []
  signed : k.authority ∈ signers
  programdata_after : L.stateOf (w' k.programdata) = some (.ProgramData clock (some k.authority))
  programdata_funded : (w' k.programdata).lamports ≠ 0
  program_after : L.stateOf (w' k.program) = some (.Program k.programdata)
  buffer_after : Emptied (w k.buffer) (w' k.buffer)
  payer_after : Paid (w k.payer) (w' k.payer)
  others : ∀ key, key ≠ k.payer → key ≠ k.programdata → key ≠ k.program → key ≠ k.buffer → w' key = w key

/-- The accounts of an upgrade. -/
structure UpgradeKeys where
  programdata : Pubkey
  program : Pubkey
  buffer : Pubkey
  spill : Pubkey
  authority : Pubkey

/-- The program of a Buffer takes the place of a deployed one. -/
structure Upgrades (k : UpgradeKeys) (slot : UInt64) (w w' : Accounts) : Prop where
  instruction : call.instruction = .Upgrade
  programdata_named : call.accounts 0 = some k.programdata
  program_named : call.accounts 1 = some k.program
  buffer_named : call.accounts 2 = some k.buffer
  spill_named : call.accounts 3 = some k.spill
  program_state : L.stateOf (w k.program) = some (.Program k.programdata)
  buffer_before : L.stateOf (w k.buffer) = some (.Buffer (some k.authority))
  programdata_before : L.stateOf (w k.programdata) = some (.ProgramData slot (some k.authority))
  slot_ne : clock ≠ slot
  signed : k.authority ∈ signers
  programdata_after : L.stateOf (w' k.programdata) = some (.ProgramData clock (some k.authority))
  programdata_funded : (w' k.programdata).lamports ≠ 0
  /-- The program is that of the buffer, followed by zeros. -/
  program_bytes : ∃ n, programOf (w' k.programdata) = bufferedProgramOf (w k.buffer) ++ List.replicate n 0
  buffer_after : Emptied (w k.buffer) (w' k.buffer)
  spill_after : Credited (w k.spill) (w' k.spill)
  spill_ne : k.spill ≠ k.programdata ∧ k.spill ≠ k.buffer
  others : ∀ key, key ≠ k.programdata → key ≠ k.buffer → key ≠ k.spill → w' key = w key

/-- What an account is closed by. -/
inductive MayClose (w : Accounts) (account : Pubkey) : UpgradeableLoaderState → Prop
  | uninitialized : MayClose w account .Uninitialized
  | buffer (authority : Pubkey) (signed : authority ∈ signers) : MayClose w account (.Buffer (some authority))
  | programData (slot : UInt64) (authority program : Pubkey) (signed : authority ∈ signers) (slot_ne : clock ≠ slot)
      (named : call.accounts 3 = some program) (program_state : L.stateOf (w program) = some (.Program account)) :
      MayClose w account (.ProgramData slot (some authority))

/-- The lamports of an account go to the recipient, and its state is cleared. -/
structure Closes (account recipient : Pubkey) (state : UpgradeableLoaderState) (w w' : Accounts) : Prop where
  instruction : call.instruction = .Close
  account_named : call.accounts 0 = some account
  recipient_named : call.accounts 1 = some recipient
  before : L.stateOf (w account) = some state
  may : MayClose L clock signers call w account state
  account_after : w' account = { w account with lamports := 0, data := L.states.serialize .Uninitialized }
  recipient_after : Credited (w recipient) (w' recipient)
  recipient_ne : recipient ≠ account
  others : ∀ key, key ≠ account → key ≠ recipient → w' key = w key

/-- A ProgramData account gets `n` more bytes. -/
structure Extends (programdata program authority : Pubkey) (slot : UInt64) (n : UInt32) (w w' : Accounts) : Prop where
  instruction : call.instruction = .ExtendProgram n ∨ call.instruction = .ExtendProgramChecked n
  program_named : call.accounts 1 = some program
  program_state : L.stateOf (w program) = some (.Program programdata)
  before : L.stateOf (w programdata) = some (.ProgramData slot (some authority))
  slot_ne : clock ≠ slot
  after : L.stateOf (w' programdata) = some (.ProgramData clock (some authority))
  funded : (w programdata).lamports ≤ (w' programdata).lamports
  /-- Zeros are appended to the program. -/
  program_bytes : programOf (w' programdata) = programOf (w programdata) ++ List.replicate n.toNat 0
  /-- One more account may have paid for the extension. -/
  others : ∀ key, key ≠ programdata → w' key = w key ∨ (w key).data = [] ∧ Paid (w key) (w' key)

/-- What an instruction does on the ledger. -/
inductive Effect (w w' : Accounts) : Prop
  | init {buffer authority : Pubkey} (h : Initializes L call buffer authority w w')
  | write {buffer authority : Pubkey} {start : Nat} {bytes : List UInt8}
      (h : Writes L signers call buffer authority start bytes w w')
  | reassign {account authority : Pubkey} {state state' : UpgradeableLoaderState}
      (h : Reassigns L signers call account authority state state' w w')
  | deploy {k : DeployKeys} (h : Deploys L clock signers call k w w')
  | upgrade {k : UpgradeKeys} {slot : UInt64} (h : Upgrades L clock signers call k slot w w')
  | close {account recipient : Pubkey} {state : UpgradeableLoaderState}
      (h : Closes L clock signers call account recipient state w w')
  | extend {programdata program authority : Pubkey} {slot : UInt64} {n : UInt32}
      (h : Extends L clock call programdata program authority slot n w w')

end Effects

/-! ## Authority and immutability -/

/-- The authority of a Buffer or a ProgramData account; it may be `None`. -/
def Loader.authorityOf (f : AccountFields) : Option (Option Pubkey) :=
  match L.stateOf f with
  | some (.Buffer authority) => some authority
  | some (.ProgramData _ authority) => some authority
  | _ => none

/-- What the program of an account changes by. -/
inductive ProgramChange (L : Loader) (authority : Pubkey) (signers : List Pubkey) (call : Call) (w : Accounts)
    (f f' : AccountFields) : Prop
  | upgrade {buffer : Pubkey} (n : Nat) (instruction : call.instruction = .Upgrade) (signed : authority ∈ signers)
      (named : call.accounts 2 = some buffer) (state : L.stateOf (w buffer) = some (.Buffer (some authority)))
      (bytes : programOf f' = bufferedProgramOf (w buffer) ++ List.replicate n 0)
  | extend (n : UInt32) (instruction : call.instruction = .ExtendProgram n ∨ call.instruction = .ExtendProgramChecked n)
      (bytes : programOf f' = programOf f ++ List.replicate n.toNat 0)
  | close (instruction : call.instruction = .Close) (signed : authority ∈ signers)

/-- Where an upgrade and a closing move lamports. -/
structure Funds (call : Call) (w w' : Accounts) (key : Pubkey) : Prop where
  /-- An upgrade takes lamports from its programdata and buffer, a closing from the
  account that is closed. -/
  debited : (w' key).lamports < (w key).lamports →
    (call.instruction = .Upgrade → call.accounts 0 = some key ∨ call.accounts 2 = some key) ∧
    (call.instruction = .Close → call.accounts 0 = some key)
  /-- They go to the programdata and the spill account, and to the recipient. -/
  credited : (w key).lamports < (w' key).lamports →
    (call.instruction = .Upgrade → call.accounts 0 = some key ∨ call.accounts 3 = some key) ∧
    (call.instruction = .Close → call.accounts 1 = some key)

/-- Who decides about an account, for one action and the account at one address. -/
structure Policy (L : Loader) (action : Action Call) (w w' : Accounts) (key : Pubkey) : Prop where
  immutable : ∀ slot, L.stateOf (w key) = some (.ProgramData slot none) →
    (w' key).data = (w key).data ∧ (w' key).owner = (w key).owner ∧ (w key).lamports ≤ (w' key).lamports
  program : ∀ slot authority, L.stateOf (w key) = some (.ProgramData slot (some authority)) →
    programOf (w' key) ≠ programOf (w key) →
    ∃ call signers, action = .instruction call signers ∧ ProgramChange L authority signers call w (w key) (w' key)
  authority : ∀ authority authority', L.authorityOf (w key) = some authority →
    L.authorityOf (w' key) = some authority' → authority' ≠ authority →
    ∃ current, authority = some current ∧ action.SignedBy current
  funds : ∀ call signers, action = .instruction call signers → Funds call w w' key

/-! ## The past of a program -/

/-- The slots of the deployment, the upgrades, the extensions and the closing of a
program, the latest first, and whether it was closed. -/
structure Past where
  slots : List UInt64
  closed : Bool
deriving DecidableEq, Repr

/-- The pasts of all programs. -/
abbrev History := Pubkey → Past

/-- The program that a successful instruction deploys, upgrades, extends or closes, and
whether it closes it. -/
def Loader.affected (call : Call) (w : Accounts) : Option (Pubkey × Bool) :=
  match call.instruction with
  | .DeployWithMaxDataLen _ => (call.accounts 2).map (·, false)
  | .Upgrade | .ExtendProgram _ | .ExtendProgramChecked _ => (call.accounts 1).map (·, false)
  | .Close =>
    match (call.accounts 0).bind fun account => L.stateOf (w account) with
    | some (.ProgramData _ _) => (call.accounts 3).map (·, true)
    | _ => none
  | _ => none

/-- An instruction adds its slot to the past of the program it affects. -/
def Loader.record (clock : UInt64) (call : Call) (w : Accounts) (history : History) : History :=
  match L.affected call w with
  | some (program, closes) => Function.update history program
      ⟨clock :: (history program).slots, (history program).closed || closes⟩
  | none => history

/-- The program's account points to a ProgramData account. -/
def Loader.Deployed (w : Accounts) (program : Pubkey) : Prop :=
  ∃ programdata slot authority, L.stateOf (w program) = some (.Program programdata) ∧
    L.stateOf (w programdata) = some (.ProgramData slot authority)

/-! ## The loader on the ledger -/

/-- An instruction of the loader, as a step of the ledger at a slot: in any environment
with the loader's states and addresses and with that slot on the clock, in any
transaction. -/
def Executes (clock : UInt64) (call : Call) (signers : List Pubkey) (w w' : World History) : Prop :=
  ∃ (env : Environment) (ctx : TransactionContext) (rent : Rent) (ic : InstructionContext) (a a' : TransactionAccounts),
    env.states = L.states ∧ env.getClock = .ok clock ∧
    (∀ program : Pubkey, (env.findProgramAddress [program.toList] L.id).1 = L.programdataAddress program) ∧
    ctx.getCurrentInstructionContext = .ok ic ∧
    Invocation L.id (fun ic (c : Call) => processLoaderUpgradeableInstruction env ctx ic rent c.instruction) ic a a' call
      w.accounts w'.accounts ∧
    (∀ i, call.accounts i = (ic.getKeyOfInstructionAccount a i).toOption) ∧
    signers = ic.signers a ∧ w'.history = L.record clock call w.accounts w.history

/-- The ledger with the loader. Anybody may sign. -/
def rules : Rules Call History where
  programId := L.id
  canSign := fun _ => True
  instruction := Executes L
  may := fun program _ => ProgramMay program

end Svm.LoaderV3
