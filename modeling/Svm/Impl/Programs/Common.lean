import Svm.Impl.Serialization

/-!
# What the native programs share

Reads of an instruction's accounts by key, scoped borrows and writes of a range
of an account's bytes, as the native programs make them.
-/

namespace Svm

open Machine Run Bytes

variable (ic : InstructionContext)

/-- `get_key_of_instruction_account`. -/
def InstructionContext.getKeyOfInstructionAccount (a : TransactionAccounts)
    (index : UInt16) : Except InstructionError Pubkey := do
  let indexInTransaction ← ic.getIndexOfInstructionAccountInTransaction index
  match a.accountKey indexInTransaction with
  | some key => .ok key
  | none => .error .MissingAccount

def InstructionContext.checkNumberOfInstructionAccounts (expectedAtLeast : UInt16) :
    Except InstructionError Unit :=
  failIf (ic.getNumberOfInstructionAccounts < expectedAtLeast) .MissingAccount

/-- The keys of the accounts that have signed; the source collects them in a set. -/
def InstructionContext.getSigners (a : TransactionAccounts) :
    Except InstructionError (List Pubkey) :=
  (ic.instructionAccounts.filter (·.isSigner)).mapM fun account =>
    match a.accountKey account.indexInTransaction with
    | some key => .ok key
    | none => .error .MissingAccount

/-- `check_sysvar_account`: the account at `index` of the instruction is the sysvar. -/
def InstructionContext.checkSysvarAccount (a : TransactionAccounts) (sysvar : Pubkey)
    (index : UInt16) : Except InstructionError Unit := do
  let key ← ic.getKeyOfInstructionAccount a index
  failIf (key ≠ sysvar) .InvalidArgument

/-- The 32 bytes from the start of `bytes`, which is that long. -/
def toPubkey (bytes : List UInt8) : Pubkey := .ofFn fun i : Fin 32 => bytes.getD i 0

theorem toPubkey_take (bytes) : toPubkey (bytes.take 32) = toPubkey bytes := by
  simp [toPubkey]

theorem toPubkey_toList (key) : toPubkey key.toList = key := by
  simp [toPubkey]

theorem toPubkey_append (key) (rest) : toPubkey (key.toList ++ rest) = key := by
  rw [← toPubkey_take, List.take_left' (by simp), toPubkey_toList]

/-- `copy_from_slice` into a part of the slice that `data_as_mut_slice` returned. -/
def TransactionAccountView.overwrite (v : TransactionAccountView) (start : Nat) (part : List UInt8) :
    TransactionAccountView :=
  { v with privateFields := { v.privateFields with payload := { v.privateFields.payload with
      bytes := Bytes.overwrite v.data start part } } }

namespace BorrowedInstructionAccount

variable (b : BorrowedInstructionAccount)

/-- `get_data_mut()?.get_mut(start..start + bytes.len()).ok_or(AccountDataTooSmall)?` and
`copy_from_slice(bytes)`. The source's saturating additions are exact: a `u32` and
the length of a slice are far from the top of a `usize`. -/
def writeRange (start : Nat) (bytes : List UInt8) : AccountsM Unit := do
  b.getDataMut
  let data := b.getData (← get)
  if start + bytes.length ≤ data.length then b.modifyAccount (·.overwrite start bytes)
  else throw .AccountDataTooSmall

/-- Runs `body` and drops the borrow, also when it fails. -/
def dropping {α : Type} (body : AccountsM α) : AccountsM α := do
  let result ← attempt body
  modify fun a => a.releaseBorrowMut b.getIndexInTransaction
  MonadExcept.ofExcept result

end BorrowedInstructionAccount

end Svm
