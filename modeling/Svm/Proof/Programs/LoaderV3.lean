import Svm.Proof.CpiAccounts
import Svm.Proof.Programs.System
import Svm.Spec.Programs.LoaderV3

/-!
# Loader v3: the effect of an instruction

The state of an account is read back from where it was written (`StateLibrary`), and each
instruction is followed through its checks, its writes and its calls of the system
program. `processLoaderUpgradeableInstruction_effect` says once what an instruction that
succeeds has done on the ledger.
-/

namespace Svm.LoaderV3

open Machine Run Bytes Ledger BorrowedInstructionAccount UpgradeableLoaderState Function TransactionAccounts InstructionContext StateLibrary UInt64 List
open TransactionAccountView hiding fields overwrite

variable {bytes : List UInt8} {i : UInt16}

/-! ## States -/

namespace StateLibrary

variable {states : StateLibrary} {data : List UInt8}

theorem serializedSize_le (h : states.deserialize data = some state) : state.serializedSize ≤ data.length := by
  rw [← states.length_serialize]
  exact (states.deserialize_eq_some.mp h).length_le

theorem deserialize_overwrite (states : StateLibrary) (data) (state) :
    states.deserialize (overwrite data 0 (states.serialize state)) = some state :=
  states.deserialize_eq_some.mpr ⟨_, rfl⟩

/-- The state of an account is in its first bytes. -/
theorem deserialize_of_take (h : states.deserialize data = some state) (hn : state.serializedSize ≤ n)
    (htake : rest.take n = data.take n) : states.deserialize rest = some state := by
  obtain ⟨tail, rfl⟩ := states.deserialize_eq_some.mp h
  rw [← states.length_serialize] at hn
  refine states.deserialize_eq_some.mpr ?_
  have hprefix : states.serialize state <+: rest.take n := by
    rw [htake, take_append, take_of_length_le hn]
    exact prefix_append _ _
  exact hprefix.trans ( take_prefix _ _)

theorem four_le_serializedSize (state : UpgradeableLoaderState) : 4 ≤ state.serializedSize := by
  cases state with
  | Uninitialized => exact le_refl 4
  | Buffer authority => cases authority <;> exact Nat.le_of_ble_eq_true rfl
  | Program address => exact Nat.le_of_ble_eq_true rfl
  | ProgramData slot authority => cases authority <;> exact Nat.le_of_ble_eq_true rfl

theorem deserialize_nil : states.deserialize [] = none := by
  cases h : states.deserialize [] with
  | none => rfl
  | some state =>
    have := (four_le_serializedSize state).trans (serializedSize_le h)
    exact absurd this (by decide)

/-- A zeroed account is uninitialized. -/
theorem deserialize_zeros (hzero : ∀ byte ∈ data, byte = 0) (h : states.deserialize data = some state) :
    state = .Uninitialized := by
  have hlen := (four_le_serializedSize state).trans (serializedSize_le h)
  have huninitialized : states.deserialize data = some .Uninitialized := by
    refine states.deserialize_eq_some.mpr ?_
    rw [states.serialize_uninitialized, eq_replicate_iff.mpr ⟨rfl, hzero⟩]
    refine ⟨replicate (data.length - 4) 0, ?_⟩
    rw [show ([0, 0, 0, 0] : List UInt8) = replicate 4 0 from rfl, replicate_append_replicate,
      Nat.add_sub_cancel' hlen]
  exact Option.some.inj (h.symm.trans huninitialized)

end StateLibrary

/-! ## Reading and writing accounts -/

section Accounts

variable {ic : InstructionContext} {rent : Rent} {a : TransactionAccounts}

theorem getState_ok (h : getState env b a = .ok state) : env.states.deserialize (b.fields a).data = some state := by
  rw [getState] at h
  split at h
  · cases h
    assumption
  · cases h

theorem setState_ok (hi : b.getIndexInTransaction.toNat < a.len) (h : (setState env b state).run a = .ok () a') :
    b.MayChange a ∧ state.serializedSize ≤ (b.fields a).data.length ∧ Leaves a a' (b.updated a
        { b.fields a with data := overwrite (b.fields a).data 0 (env.states.serialize state) }) := by
  obtain ⟨hmay, hfits, hl⟩ := writeRange_ok hi h
  rw [zero_add, env.states.length_serialize] at hfits
  exact ⟨hmay, hfits, hl⟩

theorem getDataFrom_ok (h : getDataFrom b offset a = .ok bytes) : bytes = (b.fields a).data.drop offset := by
  rw [getDataFrom] at h
  split at h
  · cases h
    rfl
  · cases h

theorem checkSignedBy_ok {key : Pubkey}
    (hkey : ic.getKeyOfInstructionAccount a index = .ok key) (h : checkSignedBy ic authority key index = .ok u) :
    authority = some key ∧ key ∈ ic.signers a := by
  obtain ⟨_, hauthority, h⟩ := except_inv h
  obtain ⟨isSigner, hsigner, h⟩ := except_inv h
  rw [failIf_ok] at hauthority h
  obtain rfl : isSigner = true := by simpa using h
  exact ⟨not_not.mp hauthority, signed_of_key hkey hsigner⟩

/-- A scope that reads its account. -/
theorem withBorrowed_read {g : BorrowedInstructionAccount → TransactionAccounts → Except InstructionError α}
    (h : (withBorrowed ic rent index fun b => do ofExcept (g b (← get))).run a = .ok r a') :
    ∃ ia, Borrows ic a index ia ∧ Leaves a a' a.fieldsAt ∧ g (ic.borrowed rent ia) (a.takeBorrow ia) = .ok r := by
  obtain ⟨ia, a1, hb, hbody, hleaves⟩ := withBorrowed_ok h
  obtain ⟨hg, rfl⟩ := run_ofExcept_eq_ok.mp hbody
  have hl := hleaves _ (.refl _)
  rw [fieldsAt_takeBorrow] at hl
  exact ⟨ia, hb, hl, hg⟩

/-- The fields of an account that was borrowed, in the transaction. -/
theorem fields_borrowed (ia) (i) :
    (ic.borrowed rent ia).fields (a.takeBorrow i) = a.fieldsAt ia :=
  congrFun (a.fieldsAt_takeBorrow i) _

theorem inRange_takeBorrow (hl : Leaves a a' m) (hi : i.toNat < a.len) : i.toNat < (a'.takeBorrow j).len := by
  rw [len_takeBorrow, hl.len]
  exact hi

theorem owner_of_mayChange {id : Pubkey} (hprogram : ic.Runs a id)
    (h : (ic.borrowed rent ia).MayChange (a.takeBorrow i)) : (a.fieldsAt ia).owner = id := by
  rw [← @fields_borrowed ic rent a ia i]
  exact owner_of_owned ((a.accountKey_takeBorrow i _).trans hprogram) h.owned

end Accounts

/-! ## Buffers and authorities -/

section Effects

variable {L : Loader} {clock : UInt64} {call : Call} {env : Environment} {ctx : TransactionContext}
  {ic : InstructionContext} {rent : Rent} {a a' : TransactionAccounts} {w w' : Accounts}
  {process : InstructionContext → Call → AccountsM Unit}
  {f : AccountFields} {state : UpgradeableLoaderState} {key programId id : Pubkey} {index : UInt16}
  {slot : UInt64} {b : BorrowedInstructionAccount} {n : Nat} {d : Deployment}
  {buffer programdata account : InstructionAccount} {states : StateLibrary} {data : List UInt8} {u : Upgrade}
  {checkAuthority : Bool} {e : Extension}

theorem stateOf_eq (howner : f.owner = L.id) (hstate : L.states.deserialize f.data = some state) :
    L.stateOf f = some state := (if_pos howner).trans hstate

theorem stateOf_withState (howner : f.owner = L.id) (state) :
    L.stateOf (L.withState f state) = some state := stateOf_eq howner (L.states.deserialize_overwrite _ _)

theorem ne_of_key (h : (a.view j).key ≠ (a.view i).key) : j ≠ i := fun hji => h (hji ▸ rfl)

/-- An instruction that succeeds where the states, the clock and the derived addresses are
those of the ledger. -/
structure Setting (L : Loader) (clock : UInt64) (env : Environment)
    (process : InstructionContext → Call → AccountsM Unit) (ic : InstructionContext) (a a' : TransactionAccounts)
    (call : Call) (w w' : Accounts) : Prop extends Invocation L.id process ic a a' call w w' where
  states : env.states = L.states
  slot : env.getClock = .ok clock
  derive : ∀ program : Pubkey, (env.findProgramAddress [program.toList] L.id).1 = L.programdataAddress program
  names : ∀ i, call.accounts i = (ic.getKeyOfInstructionAccount a i).toOption

variable (hinv : Setting L clock env process ic a a' call w w')

include hinv

/-- The key of an account that the instruction names. -/
theorem Setting.named (h : Named ic a index account) : call.accounts index = some (a.view account).key := by
  rw [hinv.names, h.getKey_eq]
  rfl

theorem Setting.stateOf (hi : i.toNat < a.len) (howner : (a.fieldsAt i).owner = L.id)
    (hstate : env.states.deserialize (a.fieldsAt i).data = some state) :
    L.stateOf (w (a.view i).key) = some state := by
  rw [hinv.before.at hi]
  exact stateOf_eq howner (hinv.states ▸ hstate)

/-- The state of a borrowed account was read, and a new one was written. -/
theorem Setting.setState (hb : Borrows ic a index account)
    (hleaves : ∀ m, Leaves (a.takeBorrow account) a1 m → Leaves a a' m)
    (hstate : getState env (ic.borrowed rent account) (a.takeBorrow account) = .ok state)
    (hset : (setState env (ic.borrowed rent account) state').run (a.takeBorrow account) = .ok () a1) :
    L.stateOf (w (a.view account).key) = some state ∧ state'.serializedSize ≤ (w (a.view account).key).data.length ∧
      w' = update w (a.view account).key (L.withState (w (a.view account).key) state') := by
  obtain ⟨hmay, hfits, hset⟩ := setState_ok hb.borrowed_inRange hset
  have hl := hleaves _ hset
  have hstate := getState_ok hstate
  rw [fields_borrowed] at hfits hstate
  simp only [updated, fields_borrowed, fieldsAt_takeBorrow, hinv.states] at hl
  refine ⟨hinv.stateOf hb.inRange (owner_of_mayChange hinv.program hmay) hstate, ?_, ?_⟩
  · rw [hinv.before.at hb.inRange]
    exact hfits
  · rw [hinv.before.at hb.inRange]
    exact hinv.update hb.inRange hl

theorem initializeBuffer_effect (hcall : call.instruction = .InitializeBuffer)
    (hrun : (initializeBuffer env ic rent).run a = .ok () a') : Effect L clock (ic.signers a) call w w' := by
  obtain ⟨_, -, hrun⟩ := ofExcept_inv hrun
  obtain ⟨ia, a1, hb, hbody, hleaves⟩ := withBorrowed_ok hrun
  obtain ⟨state, hstate, hbody⟩ := read_inv hbody
  obtain ⟨hun, hbody⟩ := throwIf_inv hbody
  obtain ⟨authority, -, hbody⟩ := read_inv hbody
  obtain ⟨hbefore, hfits, hafter⟩ := hinv.setState hb hleaves hstate hbody
  obtain rfl : state = .Uninitialized := not_not.mp hun
  exact .init (show Initializes L call (a.view ia).key authority w w' from ⟨hcall, hbefore, hfits, hafter⟩)

theorem write_effect (hcall : call.instruction = .Write offset bytes)
    (hrun : (write env ic rent offset bytes).run a = .ok () a') : Effect L clock (ic.signers a) call w w' := by
  obtain ⟨_, -, hrun⟩ := ofExcept_inv hrun
  obtain ⟨_, a1, hcheck, hrun⟩ := bind_inv hrun
  obtain ⟨ia, hb, hl1, hcheck⟩ := withBorrowed_read hcheck
  obtain ⟨state, hstate, hcheck⟩ := except_inv hcheck
  cases state with
  | Buffer authority? =>
    obtain ⟨_, -, hcheck⟩ := except_inv hcheck
    obtain ⟨authority, hkey, hcheck⟩ := except_inv hcheck
    rw [getKeyOfInstructionAccount_takeBorrow] at hkey
    obtain ⟨rfl, hsigned⟩ := checkSignedBy_ok hkey hcheck
    obtain ⟨ia', a2, hb', hwrite, hleaves⟩ := withBorrowed_ok hrun
    obtain rfl := hb.named.unique hb'.named
    obtain ⟨hmay, hfits, hwrite⟩ := writeRange_ok hb'.borrowed_inRange hwrite
    have hl := hl1.trans (hleaves _ hwrite)
    have howner := owner_of_mayChange ((hl1.accountKey _).trans hinv.program) hmay
    have hstate := getState_ok hstate
    simp only [updated, fields_borrowed, fieldsAt_takeBorrow, hl1.fields] at hl hfits hstate howner
    refine .write (show Writes L _ call (a.view ia').key authority
      (sizeOfBufferMetadata + offset.toNat) bytes w w' from
      ⟨⟨offset, hcall⟩, hinv.stateOf hb.inRange howner hstate, hsigned, Nat.le_add_right _ _, ?_, ?_⟩)
    · rw [hinv.before.at hb.inRange]
      exact hfits
    · rw [hinv.before.at hb.inRange]
      exact hinv.update hb.inRange hl
  | _ => cases hcheck

omit hinv

/-- The authority signs for its replacement. -/
theorem newAuthorityState_ok (hkey : ic.getKeyOfInstructionAccount a 1 = .ok key)
    (h : newAuthorityState ic state key newAuthority checked = .ok state') :
    Reassigned key state state' ∧ key ∈ ic.signers a := by
  cases state with
  | Buffer authority =>
    obtain ⟨_, hsome, h⟩ := except_inv h
    obtain ⟨_, -, h⟩ := except_inv h
    obtain ⟨_, hcheck, h⟩ := except_inv h
    obtain ⟨_, -, h⟩ := except_inv h
    cases h
    obtain ⟨rfl, hsigned⟩ := checkSignedBy_ok hkey hcheck
    cases newAuthority with
    | none => cases hsome
    | some newAuthority => exact ⟨.buffer newAuthority, hsigned⟩
  | ProgramData slot authority =>
    obtain ⟨_, -, h⟩ := except_inv h
    obtain ⟨_, hcheck, h⟩ := except_inv h
    obtain ⟨_, -, h⟩ := except_inv h
    cases h
    obtain ⟨rfl, hsigned⟩ := checkSignedBy_ok hkey hcheck
    exact ⟨.programData slot newAuthority, hsigned⟩
  | Uninitialized => cases h
  | Program address => cases h

include hinv

theorem setAuthority_effect (hcall : call.instruction = .SetAuthority)
    (hrun : (setAuthority env ic rent).run a = .ok () a') : Effect L clock (ic.signers a) call w w' := by
  obtain ⟨_, -, hrun⟩ := ofExcept_inv hrun
  obtain ⟨ia, a1, hb, hbody, hleaves⟩ := withBorrowed_ok hrun
  obtain ⟨key, hkey, hbody⟩ := read_inv hbody
  obtain ⟨state, hstate, hbody⟩ := read_inv hbody
  obtain ⟨state', hnew, hbody⟩ := ofExcept_inv hbody
  rw [getKeyOfInstructionAccount_takeBorrow] at hkey
  obtain ⟨hbefore, hfits, hafter⟩ := hinv.setState hb hleaves hstate hbody
  obtain ⟨hreassigned, hsigned⟩ := newAuthorityState_ok hkey hnew
  exact .reassign ⟨.inl hcall, hbefore, hreassigned, hsigned, hfits, hafter⟩

theorem setAuthorityChecked_effect (hcall : call.instruction = .SetAuthorityChecked)
    (hrun : (setAuthorityChecked env ic rent).run a = .ok () a') : Effect L clock (ic.signers a) call w w' := by
  obtain ⟨-, hrun⟩ := throwIf_inv hrun
  obtain ⟨_, -, hrun⟩ := ofExcept_inv hrun
  obtain ⟨ia, a1, hb, hbody, hleaves⟩ := withBorrowed_ok hrun
  obtain ⟨key, hkey, hbody⟩ := read_inv hbody
  obtain ⟨newKey, -, hbody⟩ := read_inv hbody
  obtain ⟨state, hstate, hbody⟩ := read_inv hbody
  obtain ⟨state', hnew, hbody⟩ := ofExcept_inv hbody
  rw [getKeyOfInstructionAccount_takeBorrow] at hkey
  obtain ⟨hbefore, hfits, hafter⟩ := hinv.setState hb hleaves hstate hbody
  obtain ⟨hreassigned, hsigned⟩ := newAuthorityState_ok hkey hnew
  exact .reassign ⟨.inr hcall, hbefore, hreassigned, hsigned, hfits, hafter⟩

/-! ## Calls of the system program -/

omit hinv

/-- The index that is found for a key is one of it. -/
theorem findIndexOfAccount_named (hindexed : a.len ≤ 2 ^ 16)
    (h : TransactionContext.findIndexOfAccount { ctx with accounts := a } key = some i) :
    i.toNat < a.len ∧ (a.view i).key = key := by
  obtain ⟨n, hn, hni⟩ := Option.map_eq_some_iff.mp h
  obtain ⟨hlt, hkey, -⟩ := findIdx?_eq_some_iff_getElem.mp hn
  have hlen : n < a.len := by rwa [accountKeys, length_map] at hlt
  obtain rfl : i.toNat = n := by
    rw [← hni]
    exact UInt16.toNat_ofNat_of_lt' (show n < 2 ^ 16 by omega)
  refine ⟨hlen, ?_⟩
  have hslot := getElem?_slots hlen
  have hget : a.accountKeys[i.toNat]? = some (a.view i).key := by
    rw [accountKeys, getElem?_map, hslot]
    rfl
  rw [getElem?_eq_getElem hlt] at hget
  rw [← Option.some.inj hget]
  exact by simpa using hkey

/-- What a call of the system program runs: the accounts of the callee are those of the
metas. -/
theorem nativeInvokeSigned_ok (hlen : accounts.length ≤ 65535) (hindexed : a.len ≤ 2 ^ 16)
    (h : (nativeInvokeSigned env ctx ic rent instruction accounts signerSeeds).run a = .ok () a') :
    ∃ callee, (∀ (p : Nat) accountMeta, accounts[p]? = some accountMeta →
        ∃ ia, callee.instructionAccounts[p]? = some ia ∧ ia.indexInTransaction.toNat < a.len ∧
          (a.view ia.indexInTransaction).key = accountMeta.pubkey) ∧
      (System.processInstruction env.system callee rent instruction).run a = .ok () a' := by
  obtain ⟨signers, -, h⟩ := ofExcept_inv h
  obtain ⟨callee, hcallee, h⟩ := read_inv h
  obtain ⟨⟨program, instructionAccounts, table⟩, hresolve, hcallee⟩ := except_inv hcallee
  cases hcallee
  have hok : InvokeContext.resolveCpi { ctx with accounts := a } ⟨SYSTEM_PROGRAM_ID, accounts, []⟩ signers =
      .ok (program, instructionAccounts, table) := by
    revert hresolve
    generalize InvokeContext.resolveCpi _ _ _ = resolved
    intro hresolve
    cases resolved with
    | ok r =>
      cases hresolve
      rfl
    | error fault => cases fault <;> cases hresolve
  refine ⟨_, fun p accountMeta hp => ?_, h⟩
  obtain ⟨ia, hia, hfound⟩ := resolveCpi_named hlen hok hp
  exact ⟨ia, hia, findIndexOfAccount_named hindexed hfound⟩

/-! ## Deployment -/

theorem balanceRequired_ne_zero (minimumBalance) (n : Nat) : balanceRequired minimumBalance n ≠ 0 := by
  show (if 1 ≤ minimumBalance n then minimumBalance n else 1) ≠ 0
  split
  · rename_i hle
    intro hzero
    exact absurd (hzero ▸ hle) (by decide)
  · decide

theorem clockWithAccountCheck_ok (hclock : env.getClock = .ok clock)
    (h : clockWithAccountCheck env ic index a = .ok slot) : slot = clock := by
  obtain ⟨_, -, h⟩ := except_inv h
  exact Except.ok.inj (h.symm.trans hclock)

/-- What the checks of a Buffer account establish. -/
theorem checkBuffer_ok (hkey : ic.getKeyOfInstructionAccount a index = .ok key)
    (h : checkBuffer env ic b key index a = .ok n) :
    env.states.deserialize (b.fields a).data = some (.Buffer (some key)) ∧ key ∈ ic.signers a ∧
      n = (b.fields a).data.length - sizeOfBufferMetadata := by
  obtain ⟨state, hstate, h⟩ := except_inv h
  cases state with
  | Buffer authority =>
    obtain ⟨_, hsigned, hrest⟩ := except_inv h
    obtain ⟨rfl, hmem⟩ := checkSignedBy_ok hkey hsigned
    obtain ⟨_, -, hrest⟩ := except_inv hrest
    cases hrest
    exact ⟨getState_ok hstate, hmem, rfl⟩
  | _ => cases h

/-- What the checks of a deployment establish. -/
structure CheckedDeployment (env : Environment) (ic : InstructionContext) (programId : Pubkey) (clock : UInt64)
    (a : TransactionAccounts) (d : Deployment) (program buffer : InstructionAccount) : Prop where
  payer_key : ic.getKeyOfInstructionAccount a 0 = .ok d.payerKey
  programdata_key : ic.getKeyOfInstructionAccount a 1 = .ok d.programdataKey
  signed : d.authorityKey ∈ ic.signers a
  program_named : Named ic a 2 program
  program_key : d.newProgramId = (a.view program).key
  program_state : env.states.deserialize (a.fieldsAt program).data = some .Uninitialized
  buffer_named : Named ic a 3 buffer
  buffer_state : env.states.deserialize (a.fieldsAt buffer).data = some (.Buffer (some d.authorityKey))
  slot : d.slot = clock
  derived : (env.findProgramAddress [d.newProgramId.toList] programId).1 = d.programdataKey
  lamports_ne_zero : d.lamports ≠ 0
  space_ne_zero : ofNat d.programdataLen ≠ 0

theorem checkDeployment_ok (hclock : env.getClock = .ok clock)
    (h : (checkDeployment env ic rent programId maxDataLen).run a = .ok d a') :
    Leaves a a' a.fieldsAt ∧ ∃ program buffer, CheckedDeployment env ic programId clock a d program buffer := by
  obtain ⟨_, -, h⟩ := ofExcept_inv h
  obtain ⟨payerKey, hpayer, h⟩ := read_inv h
  obtain ⟨programdataKey, hprogramdata, h⟩ := read_inv h
  obtain ⟨minimumBalance, -, h⟩ := read_inv h
  obtain ⟨slot, hslot, h⟩ := read_inv h
  obtain ⟨_, -, h⟩ := ofExcept_inv h
  obtain ⟨authorityKey, hauthority, h⟩ := read_inv h
  obtain ⟨newProgramId, a1, hprogram, h⟩ := bind_inv h
  obtain ⟨program, hb, hl1, hprogram⟩ := withBorrowed_read hprogram
  obtain ⟨state, hstate, hprogram⟩ := except_inv hprogram
  obtain ⟨_, hun, hprogram⟩ := except_inv hprogram
  obtain ⟨_, -, hprogram⟩ := except_inv hprogram
  obtain ⟨_, -, hprogram⟩ := except_inv hprogram
  cases hprogram
  obtain rfl : state = .Uninitialized := not_not.mp (failIf_ok.mp hun)
  obtain ⟨⟨bufferKey, bufferDataLen⟩, a2, hbuffer, h⟩ := bind_inv h
  obtain ⟨buffer, a3, hb', hbody, hleaves⟩ := withBorrowed_ok hbuffer
  obtain ⟨n, hcheck, hbody⟩ := read_inv hbody
  cases hbody
  have hl2 := hleaves _ (.refl _)
  rw [fieldsAt_takeBorrow, hl1.fields] at hl2
  have hauthority' : ic.getKeyOfInstructionAccount (a1.takeBorrow buffer) 7 = .ok authorityKey := by
    rw [getKeyOfInstructionAccount_takeBorrow, hl1.getKey, hauthority]
  obtain ⟨hbufferState, hsigned, -⟩ := checkBuffer_ok hauthority' hcheck
  obtain ⟨-, h⟩ := throwIf_inv h
  obtain ⟨hpermitted, h⟩ := throwIf_inv h
  obtain ⟨hderived, h⟩ := throwIf_inv h
  cases h
  rw [signers_takeBorrow, hl1.signers] at hsigned
  rw [fields_borrowed, hl1.fields] at hbufferState
  refine ⟨hl1.trans hl2, program, buffer, hpayer, hprogramdata, hsigned, hb.named, ?_, ?_,
    hb'.named.congr hl1.len.symm, hbufferState, clockWithAccountCheck_ok hclock hslot, not_not.mp hderived,
    balanceRequired_ne_zero _ _, ?_⟩
  · exact congrArg key (a.view_takeBorrow _ _)
  · have hstate := getState_ok hstate
    rwa [fields_borrowed] at hstate
  · intro hzero
    have hlen : 45 ≤ sizeOfProgramdata maxDataLen := by
      simp only [sizeOfProgramdata, sizeOfProgramdataMetadata, satAdd]
      omega
    have hlt : sizeOfProgramdata maxDataLen < size :=
      lt_of_le_of_lt (Nat.not_lt.mp hpermitted) env.system.maxPermittedDataLength.toNat_lt
    have hnat := congrArg toNat hzero
    rw [toNat_ofNat_of_lt' hlt] at hnat
    exact absurd (hlen.trans (le_of_eq hnat)) (by decide)

theorem drainBuffer_ok (hbuffer : Named ic a 3 buffer) (h : (drainBuffer ic rent).run a = .ok () a') :
    ∃ payer l, Named ic a 0 payer ∧ (payer : UInt16) ≠ buffer ∧
      Leaves a a' (update (update a.fieldsAt payer { a.fieldsAt payer with lamports := l })
        buffer { a.fieldsAt buffer with lamports := 0 }) := by
  obtain ⟨buffer', a1, hb, hbody, hleaves⟩ := withBorrowed_ok h
  obtain rfl := hbuffer.unique hb.named
  obtain ⟨payer, a2, hp, hbody, hleaves'⟩ := withBorrowed_ok hbody
  have hne := hp.ne (borrowCounter_takeBorrow hb.inRange)
  rw [run_get_bind] at hbody
  obtain ⟨_, a3, hadd, hset⟩ := bind_inv hbody
  obtain ⟨l, -, hl3⟩ := checkedAddLamports_ok hp.borrowed_inRange hadd
  obtain ⟨-, hl2⟩ := setLamports_ok (hl3.len ▸ inRange_takeBorrow (.refl _) hb.borrowed_inRange) hset
  have hl := hleaves _ (hleaves' _ (hl3.trans hl2))
  simp only [updated, fields, hl3.fields, fieldsAt_takeBorrow,
    borrowed_getIndexInTransaction, update_of_ne hne.symm] at hl
  exact ⟨payer, l, ⟨hp.entry, by simpa using hp.inRange⟩, hne, hl⟩

/-- The bytes behind the state are written; it is read back. -/
theorem deserialize_overwrite_behind (hfits : sizeOfProgramdataMetadata + bytes.length ≤ data.length)
    (h : states.deserialize data = some (.ProgramData slot (some authority))) :
    states.deserialize (overwrite data sizeOfProgramdataMetadata bytes) = some (.ProgramData slot (some authority)) :=
  deserialize_of_take h (le_refl 45)
    (take_overwrite (le_refl _) ((Nat.le_add_right _ _).trans hfits))

theorem resized_sizeOfBuffer (h : sizeOfBufferMetadata ≤ data.length) :
    resized data (sizeOfBuffer 0) = data.take sizeOfBufferMetadata := by
  rw [show sizeOfBuffer 0 = sizeOfBufferMetadata by decide, resized, Nat.sub_eq_zero_of_le h, replicate_zero,
    append_nil]

theorem recordProgramdata_ok (hprogram : ic.Runs a id) (hbuffer : Named ic a 3 buffer)
    (hsize : sizeOfBufferMetadata ≤ (a.fieldsAt buffer).data.length)
    (h : (recordProgramdata env ic rent d).run a = .ok () a') :
    ∃ programdata data, Named ic a 1 programdata ∧
      (a.fieldsAt programdata).owner = id ∧ (a.fieldsAt buffer).owner = id ∧
      env.states.deserialize data = some (.ProgramData d.slot (some d.authorityKey)) ∧
      Leaves a a' (update (update a.fieldsAt programdata { a.fieldsAt programdata with data := data })
        buffer { a.fieldsAt buffer with
          data := (a.fieldsAt buffer).data.take sizeOfBufferMetadata }) := by
  obtain ⟨programdata, a1, hb, hbody, hleaves⟩ := withBorrowed_ok h
  obtain ⟨_, a2, hset, hbody⟩ := bind_inv hbody
  obtain ⟨hmay, -, hl2⟩ := setState_ok hb.borrowed_inRange hset
  obtain ⟨buffer', a3, hb', hbody, hleaves'⟩ := withBorrowed_ok hbody
  obtain rfl := hbuffer.unique (hb'.named.congr (by rw [hl2.len]))
  have hne : (buffer' : UInt16) ≠ programdata := by
    refine hb'.ne ?_
    rw [hl2.counter]
    exact borrowCounter_takeBorrow hb.inRange
  obtain ⟨program, hdata, hbody⟩ := read_inv hbody
  obtain ⟨_, a4, hwrite, hlength⟩ := bind_inv hbody
  obtain ⟨-, hfits, hl4⟩ := writeRange_ok (inRange_takeBorrow hl2 hb.borrowed_inRange) hwrite
  obtain ⟨hmay', hl3⟩ := setDataLength_ok (hl4.len ▸ hb'.borrowed_inRange) hlength
  have hl := hleaves _ (hl2.trans (hleaves' _ (hl4.trans hl3)))
  have howner := owner_of_mayChange hprogram hmay
  have hkey : ic.Runs a4 id := by
    rw [Runs, hl4.accountKey, accountKey_takeBorrow, hl2.accountKey, accountKey_takeBorrow, hprogram]
  have howner' := owner_of_owned hkey hmay'.owned
  simp only [updated, fields, hl2.fields, hl4.fields, fieldsAt_takeBorrow, borrowed_getIndexInTransaction,
    update_of_ne hne, update_self, update_idem, resized_sizeOfBuffer hsize] at hl hfits howner'
  refine ⟨programdata, _, hb.named, howner, howner', ?_, hl⟩
  exact deserialize_overwrite_behind hfits (env.states.deserialize_overwrite _ _)

theorem recordProgram_ok
    (hprogram : ic.Runs a id) (hnamed : Named ic a 2 program)
    (h : (recordProgram env ic rent d).run a = .ok () a') : (a.fieldsAt program).owner = id ∧
      Leaves a a' (update a.fieldsAt program { a.fieldsAt program with
          executable := true
          data := overwrite (a.fieldsAt program).data 0 (env.states.serialize (.Program d.programdataKey)) }) := by
  obtain ⟨program', a1, hb, hbody, hleaves⟩ := withBorrowed_ok h
  obtain rfl := hnamed.unique hb.named
  obtain ⟨_, a2, hset, hbody⟩ := bind_inv hbody
  obtain ⟨hmay, -, hl2⟩ := setState_ok hb.borrowed_inRange hset
  have hl1 := setExecutable_ok (hl2.len ▸ hb.borrowed_inRange) hbody
  have hl := hleaves _ (hl2.trans hl1)
  simp only [updated, fields, hl2.fields, fieldsAt_takeBorrow, update_self, update_idem] at hl
  exact ⟨owner_of_mayChange hprogram hmay, hl⟩

theorem deployBuffer_ok (h : (deployBuffer env ic rent index newProgramId programId n slot).run a = .ok () a') :
    Leaves a a' a.fieldsAt := by
  obtain ⟨ia, a1, hb, hbody, hleaves⟩ := withBorrowed_ok h
  obtain ⟨program, -, hbody⟩ := read_inv hbody
  obtain ⟨-, rfl⟩ := run_ofExcept_eq_ok.mp hbody
  have hl := hleaves _ (.refl _)
  rwa [fieldsAt_takeBorrow] at hl

theorem createProgramdata_ok (hindexed : a.len ≤ 2 ^ 16) (hspace : ofNat d.programdataLen ≠ 0)
    (h : (createProgramdata env ctx ic rent programId d).run a = .ok () a') :
    ∃ (s t : UInt16) (l : UInt64) (data : List UInt8), s.toNat < a.len ∧ (a.view s).key = d.payerKey ∧
      t.toNat < a.len ∧ (a.view t).key = d.programdataKey ∧ s ≠ t ∧ (a.fieldsAt s).data = [] ∧
      (a.fieldsAt t).data = [] ∧ (a.fieldsAt t).owner = SYSTEM_PROGRAM_ID ∧ Leaves a a' (update (update a.fieldsAt t
          { a.fieldsAt t with lamports := d.lamports, data := data, owner := programId })
        s { a.fieldsAt s with lamports := l }) := by
  obtain ⟨callee, hnamed, h⟩ := nativeInvokeSigned_ok (Nat.le_of_ble_eq_true rfl) hindexed h
  obtain ⟨s, t, l, hs, ht, hne, hsdata, -, htdata, htowner, hl⟩ := System.processInstruction_createAccount hspace h
  obtain ⟨s', hs', -, hskey⟩ := hnamed 0 _ rfl
  obtain ⟨t', ht', -, htkey⟩ := hnamed 1 _ rfl
  obtain rfl : s' = s := Option.some.inj (hs'.symm.trans hs.entry)
  obtain rfl : t' = t := Option.some.inj (ht'.symm.trans ht.entry)
  exact ⟨_, _, l, _, hs.inRange, hskey, ht.inRange, htkey, hne, hsdata, htdata, htowner, hl⟩

/-- An account without data has no state. -/
theorem ne_of_data_nil (hdata : f.data = []) (h : states.deserialize f.data = some state) : False := by
  rw [hdata, deserialize_nil] at h
  cases h

include hinv

theorem deploy_effect (hcall : call.instruction = .DeployWithMaxDataLen maxDataLen)
    (hrun : (deployWithMaxDataLen env ctx ic rent L.id maxDataLen).run a = .ok () a') :
    Effect L clock (ic.signers a) call w w' := by
  obtain ⟨d, a1, hcheck, hrun⟩ := bind_inv hrun
  obtain ⟨hl1, program, buffer, hc⟩ := checkDeployment_ok hinv.slot hcheck
  obtain ⟨_, a2, hdrain, hrun⟩ := bind_inv hrun
  obtain ⟨payer, l, hpayer, hpb, hl2⟩ := drainBuffer_ok (hc.buffer_named.congr hl1.len) hdrain
  have hl2 := hl1.trans hl2
  rw [hl1.fields] at hl2
  have hpayer : Named ic a 0 payer := hpayer.congr hl1.len.symm
  obtain ⟨_, a3, hcreate, hrun⟩ := bind_inv hrun
  obtain ⟨s, t, l', space, hs, hskey, ht, htkey, hst, hsdata, htdata, htowner, hl3⟩ :=
    createProgramdata_ok (hl2.len ▸ hinv.before.indexed) hc.space_ne_zero hcreate
  rw [hl2.key] at hskey htkey
  rw [hl2.len] at hs ht
  -- The payer that was credited is the one that pays.
  obtain rfl : s = payer :=
    hinv.before.index_inj hs hpayer.inRange (hskey.trans (hpayer.key_of_getKey hc.payer_key).symm)
  have hl3 := hl2.trans hl3
  obtain ⟨_, a4, hdeploy, hrun⟩ := bind_inv hrun
  have hl4 := hl3.trans (hl3.fields ▸ deployBuffer_ok hdeploy)
  obtain ⟨_, a5, hprogramdata, hrecord⟩ := bind_inv hrun
  have hkept (i : UInt16) : (a2.fieldsAt i).data = (a.fieldsAt i).data ∧ (a2.fieldsAt i).owner = (a.fieldsAt i).owner := by
    rw [hl2.fields]
    simp only [update_apply]
    split_ifs with hi hi' <;> subst_vars <;> exact ⟨rfl, rfl⟩
  rw [(hkept _).1] at hsdata htdata
  rw [(hkept _).2] at htowner
  -- The four accounts differ: two are empty, and the other two have different states.
  have hBt : buffer ≠ t := by
    rintro rfl
    exact ne_of_data_nil htdata hc.buffer_state
  have hPt : program ≠ t := by
    rintro rfl
    exact ne_of_data_nil htdata hc.program_state
  have hPp : (program : UInt16) ≠ payer := by
    intro h
    exact ne_of_data_nil hsdata (h ▸ hc.program_state)
  have hPB : (program : UInt16) ≠ buffer := by
    intro h
    exact absurd (hc.program_state.symm.trans (h ▸ hc.buffer_state)) (by simp)
  have hsize : sizeOfBufferMetadata ≤ (a4.fieldsAt buffer).data.length := by
    rw [hl4.fields, update_of_ne hpb.symm, update_of_ne hBt, (hkept _).1]
    exact serializedSize_le hc.buffer_state
  obtain ⟨programdata, data, hpd, hpdowner, hbowner, hdata, hl5⟩ :=
    recordProgramdata_ok ((hl4.accountKey _).trans hinv.program) (hc.buffer_named.congr hl4.len) hsize hprogramdata
  have hpd : Named ic a 1 programdata := hpd.congr hl4.len.symm
  obtain rfl : programdata = t :=
    hinv.before.index_inj hpd.inRange ht ((hpd.key_of_getKey hc.programdata_key).trans htkey.symm)
  have hl5 := hl4.trans hl5
  obtain ⟨hPowner, hl6⟩ :=
    recordProgram_ok ((hl5.accountKey _).trans hinv.program) (hc.program_named.congr hl5.len) hrecord
  have hl := hl5.trans hl6
  simp only [hl5.fields, hl4.fields, hl2.fields, update_self, update_of_ne hpb.symm, update_of_ne hst.symm,
    update_of_ne hBt, update_of_ne hPt, update_of_ne hPp, update_of_ne hPB]
    at hl hpdowner hbowner hPowner
  have hbefore {j : UInt16} (hj : j.toNat < a.len) := hinv.before.at hj
  have hPafter := hinv.at hl hc.program_named.inRange
  have hBafter := hinv.at hl hc.buffer_named.inRange
  have htafter := hinv.at hl ht
  have hpafter := hinv.at hl hpayer.inRange
  simp only [update_self, update_of_ne hpb, update_of_ne hst, update_of_ne hBt.symm, update_of_ne hPt.symm,
    update_of_ne hPp.symm, update_of_ne hPB.symm] at hPafter hBafter htafter hpafter
  refine .deploy (k := ⟨(a.view payer).key, (a.view programdata).key,
    (a.view program).key, (a.view buffer).key, d.authorityKey⟩)
    { instruction := ⟨_, hcall⟩
      program_named := hinv.named hc.program_named
      derived := ?_, programdata_before := ?_
      program_before := hinv.stateOf hc.program_named.inRange hPowner hc.program_state
      buffer_before := hinv.stateOf hc.buffer_named.inRange hbowner hc.buffer_state
      payer_before := ?_
      signed := hc.signed
      programdata_after := ?_, programdata_funded := ?_, program_after := ?_, buffer_after := ?_, payer_after := ?_
      others := ?_ }
  · rw [← hinv.derive, ← hc.program_key, hc.derived, htkey]
  · exact (hbefore ht).symm ▸ ⟨htdata, htowner⟩
  · exact (hbefore hpayer.inRange).symm ▸ hsdata
  · rw [htafter, ← hc.slot]
    exact stateOf_eq rfl (hinv.states ▸ hdata)
  · exact htafter.symm ▸ hc.lamports_ne_zero
  · rw [hPafter, htkey, hinv.states]
    exact stateOf_withState hPowner _
  · rw [hBafter, hbefore hc.buffer_named.inRange]
    rfl
  · rw [hpafter, hbefore hpayer.inRange]
    exact ⟨l', rfl⟩
  · intro key hp hpd hP hB
    refine hinv.same hl ?_
    rintro j - rfl
    simp [update_of_ne (ne_of_key hp), update_of_ne (ne_of_key hpd), update_of_ne (ne_of_key hP), update_of_ne (ne_of_key hB)]

/-! ## Upgrade -/

omit hinv

/-- What the checks of an upgrade establish. -/
structure CheckedUpgrade (env : Environment) (ic : InstructionContext) (programId : Pubkey) (clock slot : UInt64)
    (a : TransactionAccounts) (u : Upgrade) (programdata program buffer : InstructionAccount) : Prop where
  programdata_named : Named ic a 0 programdata
  program_named : Named ic a 1 program
  program_owner : (a.fieldsAt program).owner = programId
  program_state : env.states.deserialize (a.fieldsAt program).data =
    some (.Program (a.view programdata).key)
  buffer_named : Named ic a 2 buffer
  buffer_state : env.states.deserialize (a.fieldsAt buffer).data = some (.Buffer (some u.authorityKey))
  buffer_len : u.bufferDataLen = (a.fieldsAt buffer).data.length - sizeOfBufferMetadata
  programdata_state : env.states.deserialize (a.fieldsAt programdata).data =
    some (.ProgramData slot (some u.authorityKey))
  slot_ne : clock ≠ slot
  signed : u.authorityKey ∈ ic.signers a
  slot : u.slot = clock
  balance_ne_zero : u.programdataBalanceRequired ≠ 0

/-- The checks of the Program account, with the errors of an upgrade and of an extension. -/
theorem checkProgram_ok
    (h : (do
      failIf (!b.isWritable) .InvalidArgument
      failIf (b.getOwner a ≠ programId) error
      let state ← getState env b a
      match state with
      | .Program programdataAddress =>
        failIf (programdataAddress ≠ programdataKey) .InvalidArgument
        return b.getKey a
      | _ => .error .InvalidAccountData : Except InstructionError Pubkey) = .ok key) :
    (b.fields a).owner = programId ∧ env.states.deserialize (b.fields a).data = some (.Program programdataKey) := by
  obtain ⟨_, -, h⟩ := except_inv h
  obtain ⟨_, howner, h⟩ := except_inv h
  obtain ⟨state, hstate, h⟩ := except_inv h
  cases state with
  | Program address =>
    obtain ⟨_, haddress, -⟩ := except_inv h
    obtain rfl := not_not.mp (failIf_ok.mp haddress)
    exact ⟨not_not.mp (failIf_ok.mp howner), getState_ok hstate⟩
  | _ => cases h

theorem checkUpgradeProgramdata_ok {lamports : UInt64} {u : Unit}
    (hkey : ic.getKeyOfInstructionAccount a 6 = .ok key)
    (h : checkUpgradeProgramdata env ic key slot lamports n minimumBalance b a = .ok u) :
    ∃ deploymentSlot, env.states.deserialize (b.fields a).data = some (.ProgramData deploymentSlot (some key)) ∧
      slot ≠ deploymentSlot := by
  obtain ⟨_, -, h⟩ := except_inv h
  obtain ⟨_, -, h⟩ := except_inv h
  obtain ⟨state, hstate, h⟩ := except_inv h
  cases state with
  | ProgramData deploymentSlot authority =>
    obtain ⟨_, hslot, hrest⟩ := except_inv h
    obtain ⟨_, -, hrest⟩ := except_inv hrest
    obtain ⟨rfl, -⟩ := checkSignedBy_ok hkey hrest
    exact ⟨deploymentSlot, getState_ok hstate, failIf_ok.mp hslot⟩
  | _ => cases h

theorem checkUpgrade_ok (hclock : env.getClock = .ok clock)
    (h : (checkUpgrade env ic rent programId).run a = .ok u a') : Leaves a a' a.fieldsAt ∧
      ∃ slot programdata program buffer, CheckedUpgrade env ic programId clock slot a u programdata program buffer := by
  obtain ⟨_, -, h⟩ := ofExcept_inv h
  obtain ⟨programdataKey, hprogramdataKey, h⟩ := read_inv h
  obtain ⟨minimumBalance, -, h⟩ := read_inv h
  obtain ⟨slot, hslot, h⟩ := read_inv h
  obtain ⟨_, -, h⟩ := ofExcept_inv h
  obtain ⟨authorityKey, hauthority, h⟩ := read_inv h
  obtain ⟨newProgramId, a1, hprogram, h⟩ := bind_inv h
  obtain ⟨program, hb, hl1, hprogram⟩ := withBorrowed_read hprogram
  obtain ⟨hprogramOwner, hprogramState⟩ := checkProgram_ok hprogram
  obtain ⟨⟨bufferLamports, bufferDataLen⟩, a2, hbuffer, h⟩ := bind_inv h
  obtain ⟨buffer, a3, hb', hbody, hleaves⟩ := withBorrowed_ok hbuffer
  obtain ⟨n, hcheck, hbody⟩ := read_inv hbody
  cases hbody
  have hl2 := hleaves _ (.refl _)
  rw [fieldsAt_takeBorrow, hl1.fields] at hl2
  have hl2 := hl1.trans hl2
  have hkey1 {m : UInt16 → AccountFields} {a4 : TransactionAccounts} (hl : Leaves a a4 m) i :
      ic.getKeyOfInstructionAccount (a4.takeBorrow i) 6 = .ok authorityKey := by
    rw [getKeyOfInstructionAccount_takeBorrow, hl.getKey, hauthority]
  obtain ⟨hbufferState, hsigned, hlen⟩ := checkBuffer_ok (hkey1 hl1 _) hcheck
  obtain ⟨programdataLen, a4, hprogramdata, h⟩ := bind_inv h
  obtain ⟨programdata, a5, hb'', hbody, hleaves⟩ := withBorrowed_ok hprogramdata
  obtain ⟨_, hcheck, hbody⟩ := read_inv hbody
  cases hbody
  have hl3 := hleaves _ (.refl _)
  rw [fieldsAt_takeBorrow, hl2.fields] at hl3
  have hl3 := hl2.trans hl3
  obtain ⟨deploymentSlot, hstate, hne⟩ := checkUpgradeProgramdata_ok (hkey1 hl2 _) hcheck
  cases h
  rw [signers_takeBorrow, hl1.signers] at hsigned
  have hnamed : Named ic a 0 programdata := hb''.named.congr hl2.len.symm
  obtain rfl := hnamed.key_of_getKey hprogramdataKey
  rw [fields_borrowed, hl1.fields] at hbufferState hlen
  rw [fields_borrowed, hl2.fields] at hstate
  rw [fields_borrowed] at hprogramOwner hprogramState
  obtain rfl := clockWithAccountCheck_ok hclock hslot
  exact ⟨hl3, deploymentSlot, programdata, program, buffer, hnamed, hb.named, hprogramOwner, hprogramState,
    hb'.named.congr hl1.len.symm, hbufferState, hlen, hstate, hne, hsigned, rfl, balanceRequired_ne_zero _ _⟩

/-- The bytes of a program, and zeros up to the end of the account. -/
theorem drop_overwrite_program (hfits : sizeOfProgramdataMetadata + program.length ≤ data.length)
    (hend : sizeOfProgramdataMetadata + program.length + n = data.length) :
    (overwrite (overwrite data sizeOfProgramdataMetadata program) (sizeOfProgramdataMetadata + program.length)
      (replicate n 0)).drop sizeOfProgramdataMetadata = program ++ replicate n 0 := by
  have hstart : sizeOfProgramdataMetadata ≤ data.length := (Nat.le_add_right _ _).trans hfits
  rw [drop_overwrite_to_end (Nat.le_add_right _ _), Nat.add_sub_cancel_left, take_drop_overwrite_self _ hstart]
  rw [length_overwrite hfits, length_replicate]
  exact hend

variable (hprogram : ic.Runs a id)

include hprogram

theorem recordUpgrade_ok (hi : (ic.borrowed rent programdata).getIndexInTransaction.toNat < a.len)
    (hbusy : (a.slot programdata).borrowCounter ≠ 0) (hbuffer : Named ic a 2 buffer)
    (hlen : u.bufferDataLen = (a.fieldsAt buffer).data.length - sizeOfBufferMetadata)
    (h : (recordUpgrade env ic rent u (ic.borrowed rent programdata)).run a = .ok () a') :
    (a.fieldsAt programdata).owner = id ∧ (buffer : UInt16) ≠ programdata ∧
      ∃ data n, env.states.deserialize data = some (.ProgramData u.slot (some u.authorityKey)) ∧
        data.drop sizeOfProgramdataMetadata = (a.fieldsAt buffer).data.drop sizeOfBufferMetadata ++ replicate n 0 ∧
        Leaves a a' (update a.fieldsAt programdata { a.fieldsAt programdata with data := data }) := by
  obtain ⟨_, a1, hset, h⟩ := bind_inv h
  obtain ⟨hmay, -, hl1⟩ := setState_ok hi hset
  obtain ⟨_, a2, hcopy, h⟩ := bind_inv h
  obtain ⟨buffer', a3, hb, hbody, hleaves⟩ := withBorrowed_ok hcopy
  obtain rfl := hbuffer.unique (hb.named.congr hl1.len.symm)
  have hne : (buffer' : UInt16) ≠ programdata := by
    refine hb.ne ?_
    rw [hl1.counter]
    exact hbusy
  obtain ⟨program, hdata, hwrite⟩ := read_inv hbody
  obtain rfl := getDataFrom_ok hdata
  obtain ⟨-, hfits, hl3⟩ := writeRange_ok (inRange_takeBorrow hl1 hi) hwrite
  have hl2 := hl1.trans (hleaves _ hl3)
  rw [run_get_bind] at h
  obtain ⟨-, hend, hl⟩ := writeRange_ok (hl2.len ▸ hi) h
  have hl := hl2.trans hl
  have howner := owner_of_owned hprogram hmay.owned
  have hgetData : ((ic.borrowed rent programdata).getData a2).length =
      (a2.fieldsAt programdata).data.length := rfl
  rw [hgetData] at hl hend
  simp only [updated, fields, hl2.fields, hl1.fields, fieldsAt_takeBorrow, borrowed_getIndexInTransaction,
    update_of_ne hne, update_self, update_idem] at hl hfits hend
  rw [← length_drop] at hlen
  rw [hlen, length_overwrite hfits] at hl hend
  have hstate := deserialize_overwrite_behind hfits (env.states.deserialize_overwrite _ _)
  refine ⟨howner, hne, _, _, ?_, drop_overwrite_program hfits (Nat.add_sub_cancel' hfits), hl⟩
  refine deserialize_of_take hstate (le_refl 45) (take_overwrite (Nat.le_add_right _ _) ?_)
  rw [length_overwrite hfits]
  exact hfits

theorem fundUpgrade_ok (hi : (ic.borrowed rent programdata).getIndexInTransaction.toNat < a.len)
    (hbusy : (a.slot programdata).borrowCounter ≠ 0) (hbuffer : Named ic a 2 buffer)
    (hBp : (buffer : UInt16) ≠ programdata) (hsize : sizeOfBufferMetadata ≤ (a.fieldsAt buffer).data.length)
    (h : (fundUpgrade ic rent u (ic.borrowed rent programdata)).run a = .ok () a') :
    ∃ spill l, Named ic a 3 spill ∧ (a.fieldsAt spill).lamports ≤ l ∧ (a.fieldsAt buffer).owner = id ∧
      (spill : UInt16) ≠ programdata ∧ (spill : UInt16) ≠ buffer ∧
      Leaves a a' (update (update (update a.fieldsAt spill { a.fieldsAt spill with lamports := l })
        programdata { a.fieldsAt programdata with
          lamports := u.programdataBalanceRequired }) buffer { a.fieldsAt buffer with
          lamports := 0, data := (a.fieldsAt buffer).data.take sizeOfBufferMetadata }) := by
  obtain ⟨buffer', a1, hb, hbody, hleaves⟩ := withBorrowed_ok h
  obtain rfl := hbuffer.unique hb.named
  obtain ⟨spill, a2, hb', hbody, hleaves'⟩ := withBorrowed_ok hbody
  have hSB := hb'.ne (borrowCounter_takeBorrow hb.inRange)
  have hSp : (spill : UInt16) ≠ programdata := by
    refine hb'.ne ?_
    rw [takeBorrow, slot_modifySlot_ne a hBp]
    exact hbusy
  rw [run_get_bind] at hbody
  obtain ⟨_, a3, hadd, hbody⟩ := bind_inv hbody
  obtain ⟨l, hsum, hl3⟩ := checkedAddLamports_ok hb'.borrowed_inRange hadd
  obtain ⟨_, a4, hzero, hbody⟩ := bind_inv hbody
  have hrange : (ic.borrowed rent buffer').getIndexInTransaction.toNat <
      ((a.takeBorrow buffer').takeBorrow spill).len := inRange_takeBorrow (.refl _) hb.borrowed_inRange
  obtain ⟨-, hl4⟩ := setLamports_ok (hl3.len ▸ hrange) hzero
  have hl4' := hl3.trans hl4
  obtain ⟨_, a5, hset, hlength⟩ := bind_inv hbody
  have hi' := inRange_takeBorrow (j := buffer') (.refl _) hi
  obtain ⟨-, hl5⟩ := setLamports_ok (hl4'.len ▸ inRange_takeBorrow (.refl _) hi') hset
  have hl5 := hl4'.trans hl5
  obtain ⟨hmay, hl6⟩ := setDataLength_ok (hl5.len ▸ hrange) hlength
  have hl := hleaves _ (hleaves' _ (hl5.trans hl6))
  have hkey : ic.Runs a5 id := by
    rw [Runs, hl5.accountKey, accountKey_takeBorrow, accountKey_takeBorrow, hprogram]
  have howner := owner_of_owned hkey hmay.owned
  simp only [updated, fields, hl3.fields, hl4.fields, hl5.fields, fieldsAt_takeBorrow,
    borrowed_getIndexInTransaction, update_of_ne hBp, update_of_ne hBp.symm, update_of_ne hSB.symm,
    update_of_ne hSp.symm, update_self, resized_sizeOfBuffer hsize] at hl howner hsum
  rw [update_comm hBp, update_idem] at hl
  have hle : (a.fieldsAt spill).lamports.toNat ≤ l.toNat := hsum ▸ Nat.le_add_right _ _
  exact ⟨spill, l, hb'.named.congr (a.len_takeBorrow _).symm, le_iff_toNat_le.mpr hle, howner, hSp, hSB, hl⟩

/-- What the part of an upgrade that writes has done. -/
theorem upgradeAccounts_ok
    (hprogramdata : Named ic a 0 programdata) (hbuffer : Named ic a 2 buffer)
    (hsize : sizeOfBufferMetadata ≤ (a.fieldsAt buffer).data.length)
    (hlen : u.bufferDataLen = (a.fieldsAt buffer).data.length - sizeOfBufferMetadata)
    (h : (withBorrowed ic rent 0 fun programdata => do
      recordUpgrade env ic rent u programdata
      fundUpgrade ic rent u programdata).run a = .ok () a') :
    ∃ spill l data n, Named ic a 3 spill ∧ (a.fieldsAt spill).lamports ≤ l ∧
      (a.fieldsAt programdata).owner = id ∧ (a.fieldsAt buffer).owner = id ∧
      (buffer : UInt16) ≠ programdata ∧
      (spill : UInt16) ≠ programdata ∧
      (spill : UInt16) ≠ buffer ∧
      env.states.deserialize data = some (.ProgramData u.slot (some u.authorityKey)) ∧
      data.drop sizeOfProgramdataMetadata =
        (a.fieldsAt buffer).data.drop sizeOfBufferMetadata ++ replicate n 0 ∧
      Leaves a a' (update (update (update a.fieldsAt spill { a.fieldsAt spill with lamports := l })
        programdata { a.fieldsAt programdata with
          lamports := u.programdataBalanceRequired, data := data })
        buffer { a.fieldsAt buffer with
          lamports := 0, data := (a.fieldsAt buffer).data.take sizeOfBufferMetadata }) := by
  obtain ⟨programdata', a1, hb, hbody, hleaves⟩ := withBorrowed_ok h
  obtain rfl := hprogramdata.unique hb.named
  obtain ⟨_, a2, hrecord, hfund⟩ := bind_inv hbody
  have hbusy := borrowCounter_takeBorrow hb.inRange
  have hbuffer1 : Named ic (a.takeBorrow programdata') 2 buffer := hbuffer.congr (a.len_takeBorrow _)
  have hprogram1 := (a.accountKey_takeBorrow programdata' _).trans hprogram
  rw [← a.fieldsAt_takeBorrow programdata'] at hsize hlen ⊢
  obtain ⟨howner, hBp, data, n, hstate, hbytes, hl2⟩ :=
    recordUpgrade_ok hprogram1 hb.borrowed_inRange hbusy hbuffer1 hlen hrecord
  have hkept := congrFun hl2.fields buffer
  rw [update_of_ne hBp] at hkept
  obtain ⟨spill, l, hspill, hle, hbowner, hSp, hSB, hl1⟩ :=
    fundUpgrade_ok ((hl2.accountKey _).trans hprogram1) (hl2.len ▸ hb.borrowed_inRange) (hl2.counter _ ▸ hbusy)
      (hbuffer1.congr hl2.len) hBp (hkept ▸ hsize) hfund
  have hl := hleaves _ (hl2.trans hl1)
  simp only [hl2.fields, update_self, update_of_ne hBp, update_of_ne hSp,
    update_comm hSp.symm, update_idem] at hl hle hbowner
  exact ⟨spill, l, data, n, hspill.congr (hl2.len.trans (a.len_takeBorrow _)).symm, hle, howner, hbowner, hBp, hSp, hSB,
    hstate, hbytes, hl⟩

omit hprogram

include hinv

theorem upgrade_effect (hcall : call.instruction = .Upgrade)
    (hrun : (upgrade env ic rent L.id).run a = .ok () a') : Effect L clock (ic.signers a) call w w' := by
  obtain ⟨u, a1, hcheck, hrun⟩ := bind_inv hrun
  obtain ⟨hl1, slot, programdata, program, buffer, hc⟩ := checkUpgrade_ok hinv.slot hcheck
  obtain ⟨_, a2, hdeploy, hrun⟩ := bind_inv hrun
  have hl2 := hl1.trans (hl1.fields ▸ deployBuffer_ok hdeploy)
  have hsize : sizeOfBufferMetadata ≤ (a2.fieldsAt buffer).data.length := by
    rw [hl2.fields]
    exact serializedSize_le hc.buffer_state
  obtain ⟨spill, l, data, n, hspill, hle, hpowner, hbowner, hBp, hSp, hSB, hstate, hbytes, hl⟩ :=
    upgradeAccounts_ok ((hl2.accountKey _).trans hinv.program) (hc.programdata_named.congr hl2.len)
      (hc.buffer_named.congr hl2.len) hsize (hl2.fields ▸ hc.buffer_len) hrun
  have hspill : Named ic a 3 spill := hspill.congr hl2.len.symm
  rw [hl2.fields] at hle hpowner hbowner hbytes hl
  have hl := hl2.trans hl
  have hbefore {j : UInt16} (hj : j.toNat < a.len) := hinv.before.at hj
  have hpafter := hinv.at hl hc.programdata_named.inRange
  have hBafter := hinv.at hl hc.buffer_named.inRange
  have hSafter := hinv.at hl hspill.inRange
  simp only [update_self, update_of_ne hBp.symm, update_of_ne hSp, update_of_ne hSB] at hpafter hBafter hSafter
  have hkey_ne {i j : UInt16} hi hj (h : i ≠ j) :
      (a.view i).key ≠ (a.view j).key := fun hkey => h (hinv.before.index_inj hi hj hkey)
  refine .upgrade (show Upgrades L clock _ call ⟨(a.view programdata).key,
    (a.view program).key, (a.view buffer).key, (a.view spill).key, u.authorityKey⟩ slot w w' from
    { instruction := hcall
      programdata_named := hinv.named hc.programdata_named
      program_named := hinv.named hc.program_named
      buffer_named := hinv.named hc.buffer_named
      spill_named := hinv.named hspill
      program_state := hinv.stateOf hc.program_named.inRange hc.program_owner hc.program_state
      buffer_before := hinv.stateOf hc.buffer_named.inRange hbowner hc.buffer_state
      programdata_before := hinv.stateOf hc.programdata_named.inRange hpowner hc.programdata_state
      slot_ne := hc.slot_ne
      signed := hc.signed
      programdata_after := ?_, programdata_funded := ?_, program_bytes := ?_, buffer_after := ?_, spill_after := ?_
      spill_ne := ⟨hkey_ne hspill.inRange hc.programdata_named.inRange hSp,
        hkey_ne hspill.inRange hc.buffer_named.inRange hSB⟩
      others := ?_ })
  · rw [hpafter, ← hc.slot]
    exact stateOf_eq hpowner (hinv.states ▸ hstate)
  · exact hpafter.symm ▸ hc.balance_ne_zero
  · rw [hpafter, hbefore hc.buffer_named.inRange]
    exact ⟨n, hbytes⟩
  · rw [hBafter, hbefore hc.buffer_named.inRange]
    rfl
  · rw [hSafter, hbefore hspill.inRange]
    exact ⟨l, hle, rfl⟩
  · intro key hp hB hS
    refine hinv.same hl ?_
    rintro j - rfl
    simp [update_of_ne (ne_of_key hp), update_of_ne (ne_of_key hB), update_of_ne (ne_of_key hS)]

/-! ## Close -/

omit hinv

theorem refund_ok (hi : (ic.borrowed rent account).getIndexInTransaction.toNat < a.len)
    (hj : (ic.borrowed rent recipient).getIndexInTransaction.toNat < a.len) (hne : (recipient : UInt16) ≠ account)
    (h : (refund (ic.borrowed rent account) (ic.borrowed rent recipient)).run a = .ok () a') :
    ∃ l, (a.fieldsAt recipient).lamports ≤ l ∧
      Leaves a a' (update (update a.fieldsAt recipient { a.fieldsAt recipient with lamports := l })
        account { a.fieldsAt account with lamports := 0 }) := by
  rw [refund, run_get_bind] at h
  obtain ⟨_, a1, hadd, hset⟩ := bind_inv h
  obtain ⟨l, hsum, hl1⟩ := checkedAddLamports_ok hj hadd
  obtain ⟨-, hl2⟩ := setLamports_ok (hl1.len ▸ hi) hset
  have hl := hl1.trans hl2
  have hle : (a.fieldsAt recipient).lamports.toNat ≤ l.toNat := hsum ▸ Nat.le_add_right _ _
  simp only [updated, fields, hl1.fields, borrowed_getIndexInTransaction, update_of_ne hne.symm] at hl
  exact ⟨l, le_iff_toNat_le.mpr hle, hl⟩

/-- The account that is closed, cut down, and the other accounts as they were, but for a
refund to the account at index 1 if there was one. -/
def Refunded (ic : InstructionContext) (a a' : TransactionAccounts) (account : InstructionAccount)
    (data : List UInt8) : Prop :=
  ∃ recipient l, Named ic a 1 recipient ∧ (recipient : UInt16) ≠ account ∧
    (a.fieldsAt recipient).lamports ≤ l ∧
    Leaves a a' (update (update a.fieldsAt recipient { a.fieldsAt recipient with lamports := l })
      account { a.fieldsAt account with lamports := 0, data := data })

theorem commonCloseAccount_ok (haccount : Named ic a 0 account)
    (h : (commonCloseAccount env ic rent authority).run a = .ok () a') :
    ∃ key, authority = some key ∧ key ∈ ic.signers a ∧ Refunded ic a a' account
        (overwrite (a.fieldsAt account).data 0 (env.states.serialize .Uninitialized)) := by
  obtain ⟨-, h⟩ := throwIf_inv h
  obtain ⟨key, hkey, h⟩ := read_inv h
  obtain ⟨_, hsigned, h⟩ := ofExcept_inv h
  obtain ⟨account', a1, hb, hbody, hleaves⟩ := withBorrowed_ok h
  obtain ⟨hauthority, hmem⟩ := checkSignedBy_ok hkey hsigned
  obtain rfl := haccount.unique hb.named
  obtain ⟨recipient, a2, hb', hbody, hleaves'⟩ := withBorrowed_ok hbody
  have hne := hb'.ne (borrowCounter_takeBorrow hb.inRange)
  obtain ⟨_, a3, hrefund, hset⟩ := bind_inv hbody
  have hi : (ic.borrowed rent account').getIndexInTransaction.toNat <
      ((a.takeBorrow account').takeBorrow recipient).len := inRange_takeBorrow (.refl _) hb.borrowed_inRange
  obtain ⟨l, hle, hl3⟩ := refund_ok hi hb'.borrowed_inRange hne hrefund
  obtain ⟨-, -, hl2⟩ := setState_ok (hl3.len ▸ hi) hset
  have hl := hleaves _ (hleaves' _ (hl3.trans hl2))
  simp only [updated, fields, hl3.fields, borrowed_getIndexInTransaction, update_self,
    update_idem, fieldsAt_takeBorrow] at hl hle
  exact ⟨key, hauthority, hmem, recipient, l, hb'.named.congr (a.len_takeBorrow _).symm, hne, hle, hl⟩

theorem truncateAccount_ok (hprogram : ic.Runs a id)
    (h : (truncateAccount env ic rent).run a = .ok (key, state) a') :
    ∃ account, Named ic a 0 account ∧ key = (a.view account).key ∧ (a.fieldsAt account).owner = id ∧
      env.states.deserialize (a.fieldsAt account).data = some state ∧ (∀ address, state ≠ .Program address) ∧
      (state = .Uninitialized → Refunded ic a a' account (resized (a.fieldsAt account).data sizeOfUninitialized)) ∧
      (state ≠ .Uninitialized → Leaves a a' (update a.fieldsAt account { a.fieldsAt account with
            data := resized (a.fieldsAt account).data sizeOfUninitialized })) := by
  obtain ⟨account, a1, hb, hbody, hleaves⟩ := withBorrowed_ok h
  obtain ⟨state', hstate, hbody⟩ := read_inv hbody
  obtain ⟨_, a2, hlength, hbody⟩ := bind_inv hbody
  obtain ⟨hmay, hl2⟩ := setDataLength_ok hb.borrowed_inRange hlength
  have howner := owner_of_mayChange hprogram hmay
  have hstate := getState_ok hstate
  rw [fields_borrowed] at hstate
  obtain ⟨_, a3, hmatch, hreturn⟩ := bind_inv hbody
  cases hreturn
  simp only [updated, fields, borrowed_getIndexInTransaction, fieldsAt_takeBorrow] at hl2
  have hsame (h : a1 = a2) : Leaves a a' (update a.fieldsAt account { a.fieldsAt account with
        data := resized (a.fieldsAt account).data sizeOfUninitialized }) := by
    subst h
    exact hleaves _ hl2
  have hkey : ∀ {m}, Leaves a2 a1 m →
      (ic.borrowed rent account).getKey a1 = (a.view account).key := by
    intro m hl
    exact (hl.key _).trans ((hl2.key _).trans (congrArg key (a.view_takeBorrow _ _)))
  refine ⟨account, hb.named, ?_⟩
  cases state with
  | Uninitialized =>
    obtain ⟨recipient, a4, hb', hrefund, hleaves'⟩ := withBorrowed_ok hmatch
    have hne : (recipient : UInt16) ≠ account := by
      refine hb'.ne ?_
      rw [hl2.counter]
      exact borrowCounter_takeBorrow hb.inRange
    obtain ⟨l, hle, hl4⟩ :=
      refund_ok (inRange_takeBorrow hl2 hb.borrowed_inRange) hb'.borrowed_inRange hne hrefund
    have hl1 := hleaves' _ hl4
    have hl := hleaves _ (hl2.trans hl1)
    simp only [fieldsAt_takeBorrow, hl2.fields, update_self, update_of_ne hne,
      update_comm hne.symm, update_idem] at hl hle
    refine ⟨hkey hl1, howner, hstate, by simp, fun _ => ?_, by simp⟩
    exact ⟨recipient, l, hb'.named.congr (hl2.len.trans (a.len_takeBorrow _)).symm, hne, hle, hl⟩
  | Buffer authority | ProgramData slot authority =>
    obtain ⟨-, rfl⟩ := run_ofExcept_eq_ok.mp hmatch
    exact ⟨hkey (.refl _), howner, hstate, by simp, by simp, fun _ => hsame rfl⟩
  | Program address => cases hmatch

/-- The refund of an account whose data was changed before. -/
theorem Refunded.of_truncated (hl1 : Leaves a a1 (update a.fieldsAt account
      { a.fieldsAt account with data := data })) (h : Refunded ic a1 a' account data') :
    Refunded ic a a' account data' := by
  obtain ⟨recipient, l, hrecipient, hne, hle, hl⟩ := h
  have hl := hl1.trans hl
  simp only [hl1.fields, update_self, update_of_ne hne, update_comm hne.symm, update_idem] at hl hle
  exact ⟨recipient, l, hrecipient.congr hl1.len.symm, hne, hle, hl⟩

theorem resized_uninitialized (h : states.deserialize data = some .Uninitialized) :
    resized data sizeOfUninitialized = states.serialize .Uninitialized := by
  obtain ⟨rest, rfl⟩ := states.deserialize_eq_some.mp h
  have hlen : sizeOfUninitialized = (states.serialize .Uninitialized).length :=
    (states.length_serialize .Uninitialized).symm
  rw [resized, hlen, take_left, Nat.sub_eq_zero_of_le (by simp), replicate_zero, append_nil]

theorem overwrite_uninitialized (data) :
    overwrite (resized data sizeOfUninitialized) 0 (states.serialize .Uninitialized) =
      states.serialize .Uninitialized := by
  have hlen : (resized data sizeOfUninitialized).length = 0 + (states.serialize .Uninitialized).length := by
    rw [length_resized, states.length_serialize]
    rfl
  rw [overwrite, take_zero, nil_append, drop_of_length_le hlen.le, append_nil]

theorem checkCloseProgram_ok {u : Unit} (hclock : env.getClock = .ok clock)
    (h : checkCloseProgram env programId closeKey slot b a = .ok u) :
    (b.fields a).owner = programId ∧ clock ≠ slot ∧
      env.states.deserialize (b.fields a).data = some (.Program closeKey) := by
  obtain ⟨_, -, h⟩ := except_inv h
  obtain ⟨_, howner, h⟩ := except_inv h
  obtain ⟨clock', hclock', h⟩ := except_inv h
  obtain rfl : clock = clock' := Except.ok.inj (hclock.symm.trans hclock')
  obtain ⟨_, hslot, h⟩ := except_inv h
  obtain ⟨state, hstate, h⟩ := except_inv h
  cases state with
  | Program address =>
    obtain rfl := not_not.mp (failIf_ok.mp h)
    exact ⟨not_not.mp (failIf_ok.mp howner), failIf_ok.mp hslot, getState_ok hstate⟩
  | _ => cases h

include hinv

/-- What every kind of closing ends with. -/
theorem close_of_refunded (hcall : call.instruction = .Close) (haccount : Named ic a 0 account)
    (howner : (a.fieldsAt account).owner = L.id)
    (hstate : env.states.deserialize (a.fieldsAt account).data = some state)
    (hmay : MayClose L clock (ic.signers a) call w (a.view account).key state)
    (h : Refunded ic a a' account (env.states.serialize .Uninitialized)) :
    Effect L clock (ic.signers a) call w w' := by
  obtain ⟨recipient, l, hrecipient, hne, hle, hl⟩ := h
  have hafter := hinv.at hl haccount.inRange
  have hrafter := hinv.at hl hrecipient.inRange
  simp only [update_self, update_of_ne hne] at hafter hrafter
  refine .close
    { instruction := hcall
      account_named := hinv.named haccount
      recipient_named := hinv.named hrecipient
      before := hinv.stateOf haccount.inRange howner hstate
      may := hmay
      account_after := ?_, recipient_after := ?_
      recipient_ne := fun hkey => hne (hinv.before.index_inj hrecipient.inRange haccount.inRange hkey)
      others := ?_ }
  · rw [hafter, hinv.before.at haccount.inRange, hinv.states]
  · rw [hrafter, hinv.before.at hrecipient.inRange]
    exact ⟨l, hle, rfl⟩
  · intro key hk hk'
    refine hinv.same hl ?_
    rintro j - rfl
    simp [update_of_ne (ne_of_key hk), update_of_ne (ne_of_key hk')]

theorem close_effect (hcall : call.instruction = .Close) (hrun : (close env ic rent L.id).run a = .ok () a') :
    Effect L clock (ic.signers a) call w w' := by
  obtain ⟨_, -, hrun⟩ := ofExcept_inv hrun
  obtain ⟨_, -, hrun⟩ := ofExcept_inv hrun
  obtain ⟨_, -, hrun⟩ := ofExcept_inv hrun
  obtain ⟨-, hrun⟩ := throwIf_inv hrun
  obtain ⟨⟨closeKey, state⟩, a1, htruncate, hrun⟩ := bind_inv hrun
  obtain ⟨account, haccount, rfl, howner, hstate, hnot, hclosed, htruncated⟩ := truncateAccount_ok hinv.program htruncate
  have hfinish (hmay : MayClose L clock (ic.signers a) call w (a.view account).key state) :=
    close_of_refunded hinv hcall haccount howner hstate hmay
  cases state with
  | Uninitialized =>
    cases hrun
    exact hfinish .uninitialized (resized_uninitialized hstate ▸ hclosed rfl)
  | Buffer authority =>
    have hl1 := htruncated (by simp)
    obtain ⟨key, rfl, hsigned, hrefunded⟩ := commonCloseAccount_ok (haccount.congr hl1.len) hrun
    rw [hl1.fields, update_self, overwrite_uninitialized] at hrefunded
    refine hfinish (.buffer key ?_) (.of_truncated hl1 hrefunded)
    exact hl1.signers ▸ hsigned
  | ProgramData slot authority =>
    have hl1 := htruncated (by simp)
    obtain ⟨_, a2, hcheck, hrun⟩ := bind_inv hrun
    obtain ⟨program, hb, hl2, hcheck⟩ := withBorrowed_read hcheck
    obtain ⟨hpowner, hslot, hpstate⟩ := checkCloseProgram_ok hinv.slot hcheck
    rw [fields_borrowed] at hpowner hpstate
    -- The account is too short for the state of a program by now.
    have hne : (program : UInt16) ≠ account := by
      intro heq
      have hsize : 36 ≤ (a1.fieldsAt program).data.length := serializedSize_le hpstate
      rw [hl1.fields, heq, update_self, length_resized] at hsize
      exact absurd hsize (by decide)
    rw [hl1.fields, update_of_ne hne] at hpowner hpstate
    have hl2 := hl1.trans (hl1.fields ▸ hl2)
    obtain ⟨key, rfl, hsigned, hrefunded⟩ := commonCloseAccount_ok (haccount.congr hl2.len) hrun
    rw [hl2.fields, update_self, overwrite_uninitialized] at hrefunded
    have hprogram : Named ic a 3 program := hb.named.congr hl1.len.symm
    refine hfinish (.programData slot key (a.view program).key ?_ hslot (hinv.named hprogram)
      (hinv.stateOf hprogram.inRange hpowner hpstate)) (.of_truncated hl2 hrefunded)
    exact hl2.signers ▸ hsigned
  | Program address => exact absurd rfl (hnot address)

/-! ## Extension -/

omit hinv

/-- What the checks of an extension establish. -/
structure CheckedExtension (env : Environment) (ic : InstructionContext) (programId : Pubkey) (clock slot : UInt64)
    (a : TransactionAccounts) (additionalBytes : UInt32) (e : Extension) (authority : Pubkey)
    (programdata program : InstructionAccount) : Prop where
  programdata_named : Named ic a 0 programdata
  programdata_key : e.programdataKey = (a.view programdata).key
  programdata_owner : (a.fieldsAt programdata).owner = programId
  programdata_state : env.states.deserialize (a.fieldsAt programdata).data =
    some (.ProgramData slot (some authority))
  program_named : Named ic a 1 program
  program_owner : (a.fieldsAt program).owner = programId
  program_state : env.states.deserialize (a.fieldsAt program).data =
    some (.Program (a.view programdata).key)
  newLen : e.newLen = satAdd 64 (a.fieldsAt programdata).data.length additionalBytes.toNat
  slot_eq : e.slot = clock
  slot_ne : clock ≠ slot
  authority_eq : e.upgradeAuthorityAddress = some authority

theorem checkExtendAuthority_ok {result : Option Pubkey}
    (h : checkExtendAuthority env ic checkAuthority slot b a = .ok result) :
    ∃ deploymentSlot authority, result = some authority ∧ slot ≠ deploymentSlot ∧
      env.states.deserialize (b.fields a).data = some (.ProgramData deploymentSlot (some authority)) := by
  obtain ⟨state, hstate, h⟩ := except_inv h
  cases state with
  | ProgramData deploymentSlot authority =>
    obtain ⟨_, hslot, hrest⟩ := except_inv h
    obtain ⟨_, hsome, hrest⟩ := except_inv hrest
    obtain rfl : result = authority := by
      cases checkAuthority with
      | false =>
        cases hrest
        rfl
      | true =>
        obtain ⟨_, -, hrest⟩ := except_inv hrest
        obtain ⟨_, -, hrest⟩ := except_inv hrest
        cases hrest
        rfl
    obtain ⟨authority, rfl⟩ := Option.ne_none_iff_exists'.mp (failIf_ok.mp hsome)
    exact ⟨deploymentSlot, authority, rfl, failIf_ok.mp hslot, getState_ok hstate⟩
  | _ => cases h

theorem checkExtension_ok {n : UInt32} (hclock : env.getClock = .ok clock)
    (h : (checkExtension env ic rent programId n checkAuthority).run a = .ok e a') :
    Leaves a a' a.fieldsAt ∧ ∃ slot authority programdata program,
      CheckedExtension env ic programId clock slot a n e authority programdata program := by
  obtain ⟨programdata, a1, hb, hbody, hleaves⟩ := withBorrowed_ok h
  rw [run_get_bind] at hbody
  rw [run_get_bind] at hbody
  obtain ⟨howner, hbody⟩ := throwIf_inv hbody
  obtain ⟨-, hbody⟩ := throwIf_inv hbody
  obtain ⟨programKey, a2, hprogram, hbody⟩ := bind_inv hbody
  obtain ⟨program, hb', hl2, hprogram⟩ := withBorrowed_read hprogram
  obtain ⟨hpowner, hpstate⟩ := checkProgram_ok hprogram
  obtain ⟨-, hbody⟩ := throwIf_inv hbody
  obtain ⟨slot, hslot, hbody⟩ := ofExcept_inv hbody
  obtain rfl : clock = slot := Except.ok.inj (hclock.symm.trans hslot)
  obtain ⟨result, hauthority, hbody⟩ := read_inv hbody
  obtain ⟨deploymentSlot, authority, rfl, hne, hstate⟩ := checkExtendAuthority_ok hauthority
  obtain ⟨minimumBalance, -, hbody⟩ := ofExcept_inv hbody
  cases hbody
  have hl := hleaves _ hl2
  have hkey : (ic.borrowed rent programdata).getKey (a.takeBorrow programdata) =
      (a.view programdata).key := congrArg key (a.view_takeBorrow _ _)
  have hdata : (ic.borrowed rent programdata).getData a1 = (a.fieldsAt programdata).data := by
    show (a1.fieldsAt programdata).data = _
    rw [hl2.fields, fieldsAt_takeBorrow]
  rw [fieldsAt_takeBorrow] at hl
  simp only [fields, hl2.fields, fieldsAt_takeBorrow, hkey] at hpowner hpstate hstate
  refine ⟨hl, deploymentSlot, authority, programdata, program, hb.named, hkey, ?_, hstate,
    hb'.named.congr (a.len_takeBorrow _).symm, hpowner, hpstate, ?_, rfl, hne, rfl⟩
  · exact (congrArg AccountFields.owner (fields_borrowed programdata _)).symm.trans (not_not.mp howner)
  · rw [hdata]

/-- Only the account that pays and the ProgramData account take part in the payment. -/
theorem payExtension_ok (hindexed : a.len ≤ 2 ^ 16)
    (hinj : ∀ j, j.toNat < a.len → (a.view j).key = e.programdataKey → j = i)
    (hdata : (a.fieldsAt i).data ≠ []) (h : (payExtension env ctx ic rent index e).run a = .ok () a') :
    ∃ m l, Leaves a a' m ∧ (a.fieldsAt i).lamports ≤ l ∧ m i = { a.fieldsAt i with lamports := l } ∧
      ∀ j, j ≠ i → m j = a.fieldsAt j ∨ (a.fieldsAt j).data = [] ∧ Paid (a.fieldsAt j) (m j) := by
  rw [payExtension] at h
  split at h
  · obtain ⟨payerKey, -, h⟩ := read_inv h
    obtain ⟨callee, hnamed, h⟩ := nativeInvokeSigned_ok (Nat.le_of_ble_eq_true rfl) hindexed h
    obtain ⟨s, t, l, l', hs, ht, hsdata, hsum, hl⟩ := System.processInstruction_transfer h
    obtain ⟨t', ht', -, htkey⟩ := hnamed 1 _ rfl
    obtain rfl : t' = t := Option.some.inj (ht'.symm.trans ht.entry)
    obtain rfl : t' = i := hinj _ ht.inRange htkey
    have hne : (t' : UInt16) ≠ s := fun heq => hdata (heq ▸ hsdata)
    rw [update_of_ne hne] at hsum hl
    have hle : (a.fieldsAt t').lamports.toNat ≤ l'.toNat := hsum ▸ Nat.le_add_right _ _
    refine ⟨_, l', hl, le_iff_toNat_le.mpr hle, update_self .., fun j hj => ?_⟩
    rw [update_of_ne hj]
    by_cases hjs : j = s
    · subst hjs
      rw [update_self]
      exact .inr ⟨hsdata, l, rfl⟩
    · exact .inl (update_of_ne hjs ..)
  · cases h
    exact ⟨_, (a.fieldsAt i).lamports, .refl a, UInt64.le_refl _, rfl, fun j _ => .inl rfl⟩

/-- The ProgramData account grows. -/
theorem extendData_ok (hprogramdata : Named ic a 0 programdata) (h : (withBorrowed ic rent 0 fun programdata => do
      programdata.setDataLength e.newLen
      let program ← ofExcept (getDataFrom programdata sizeOfProgramdataMetadata (← get))
      ofExcept <|
        env.deployProgram e.programKey programId (satAdd 64 sizeOfProgram e.newLen) program e.slot).run a = .ok () a') :
    e.newLen ≤ MAX_ACCOUNT_DATA_LEN ∧ Leaves a a' (update a.fieldsAt programdata { a.fieldsAt programdata with
        data := resized (a.fieldsAt programdata).data e.newLen }) := by
  obtain ⟨programdata', a1, hb, hbody, hleaves⟩ := withBorrowed_ok h
  obtain rfl := hprogramdata.unique hb.named
  obtain ⟨_, a2, hlength, hbody⟩ := bind_inv hbody
  obtain ⟨-, hl2⟩ := setDataLength_ok hb.borrowed_inRange hlength
  obtain ⟨program, -, hbody⟩ := read_inv hbody
  obtain ⟨-, rfl⟩ := run_ofExcept_eq_ok.mp hbody
  have hl := hleaves _ hl2
  simp only [updated, fields, fieldsAt_takeBorrow] at hl
  exact ⟨setDataLength_le hlength, hl⟩

theorem drop_overwrite_extended (hsize : sizeOfProgramdataMetadata ≤ data.length) :
    (overwrite (resized data (data.length + n)) 0 (states.serialize (.ProgramData slot (some authority)))).drop
      sizeOfProgramdataMetadata = data.drop sizeOfProgramdataMetadata ++ replicate n 0 := by
  have hlen : 0 + (states.serialize (.ProgramData slot (some authority))).length ≤ sizeOfProgramdataMetadata := by
    rw [states.length_serialize]
    exact le_refl 45
  rw [drop_overwrite hlen (Nat.zero_le _), resized, take_of_length_le (Nat.le_add_right _ _),
    Nat.add_sub_cancel_left, drop_append_of_le_length hsize]

include hinv

theorem extend_effect {n : UInt32}
    (hcall : call.instruction = .ExtendProgram n ∨ call.instruction = .ExtendProgramChecked n)
    (hrun : (commonExtendProgram env ctx ic rent L.id n checkAuthority).run a = .ok () a') :
    Effect L clock (ic.signers a) call w w' := by
  obtain ⟨-, hrun⟩ := throwIf_inv hrun
  obtain ⟨e, a1, hcheck, hrun⟩ := bind_inv hrun
  obtain ⟨hl1, slot, authority, programdata, program, hc⟩ := checkExtension_ok hinv.slot hcheck
  obtain ⟨_, a2, hpay, hrun⟩ := bind_inv hrun
  have hinj (j : UInt16) (hj : j.toNat < a1.len) (hkey : (a1.view j).key = e.programdataKey) :
      j = programdata := by
    rw [hl1.key, hc.programdata_key] at hkey
    exact hinv.before.index_inj (hl1.len ▸ hj) hc.programdata_named.inRange hkey
  have hdata : (a1.fieldsAt programdata).data ≠ [] := by
    intro hnil
    rw [hl1.fields] at hnil
    exact ne_of_data_nil hnil hc.programdata_state
  obtain ⟨m, l, hl2, hle, hm, hothers⟩ := payExtension_ok (hl1.len ▸ hinv.before.indexed) hinj hdata hpay
  rw [hl1.fields] at hle hm hothers
  have hl2 := hl1.trans hl2
  obtain ⟨_, a3, hextend, hrun⟩ := bind_inv hrun
  obtain ⟨hlimit, hl3⟩ := extendData_ok (hc.programdata_named.congr hl2.len) hextend
  have hl3 := hl2.trans hl3
  obtain ⟨programdata', a4, hb, hset, hleaves⟩ := withBorrowed_ok hrun
  obtain rfl := hc.programdata_named.unique hb.named
  obtain ⟨-, -, hl4⟩ := setState_ok hb.borrowed_inRange hset
  have hl := hl3.trans (hleaves _ hl4)
  simp only [updated, fields, hl3.fields, hl2.fields, hm, borrowed_getIndexInTransaction,
    fieldsAt_takeBorrow, update_self, update_idem] at hl
  have hlen : e.newLen = (a.fieldsAt programdata').data.length + n.toNat := by
    rw [hc.newLen] at hlimit ⊢
    simp only [satAdd, MAX_ACCOUNT_DATA_LEN] at hlimit ⊢
    omega
  rw [hlen, hc.slot_eq, hc.authority_eq, hinv.states] at hl
  have hsize : 45 ≤ (a.fieldsAt programdata').data.length :=
    serializedSize_le hc.programdata_state
  have hafter := hinv.at hl hc.programdata_named.inRange
  rw [update_self] at hafter
  have hbefore := hinv.before.at hc.programdata_named.inRange
  refine .extend (show Extends L clock call (a.view programdata').key
    (a.view program).key authority slot n w w' from
    { instruction := hcall
      program_named := hinv.named hc.program_named
      program_state := hinv.stateOf hc.program_named.inRange hc.program_owner hc.program_state
      before := hinv.stateOf hc.programdata_named.inRange hc.programdata_owner hc.programdata_state
      slot_ne := hc.slot_ne
      after := ?_, funded := ?_, program_bytes := ?_, others := ?_ })
  · rw [hafter]
    exact stateOf_eq hc.programdata_owner (L.states.deserialize_overwrite _ _)
  · rw [hafter, hbefore]
    exact hle
  · rw [hafter, hbefore]
    exact drop_overwrite_extended hsize
  · intro key hkey
    refine hinv.each hl (R := fun key' f f' => key' = key → f' = f ∨ f.data = [] ∧ Paid f f') ?_ ?_ key rfl
    · exact fun _ _ _ => .inl rfl
    · rintro j - rfl
      have hne : j ≠ programdata' := fun hj => hkey (hj ▸ rfl)
      rw [update_of_ne hne]
      exact hothers j hne

/-! ## The dispatcher -/

/-- What an instruction that succeeds has done on the ledger. -/
theorem processLoaderUpgradeableInstruction_effect
    (hrun : (processLoaderUpgradeableInstruction env ctx ic rent call.instruction).run a = .ok () a') :
    Effect L clock (ic.signers a) call w w' := by
  obtain ⟨programId, hprogramId, hrun⟩ := ofExcept_inv hrun
  obtain rfl : programId = L.id :=
    Option.some.inj ((TransactionContext.getProgramKey_ok hprogramId).symm.trans hinv.program)
  cases hcall : call.instruction with
  | InitializeBuffer => exact initializeBuffer_effect hinv hcall (hcall ▸ hrun)
  | Write offset bytes => exact write_effect hinv hcall (hcall ▸ hrun)
  | DeployWithMaxDataLen maxDataLen => exact deploy_effect hinv hcall (hcall ▸ hrun)
  | Upgrade => exact upgrade_effect hinv hcall (hcall ▸ hrun)
  | SetAuthority => exact setAuthority_effect hinv hcall (hcall ▸ hrun)
  | SetAuthorityChecked => exact setAuthorityChecked_effect hinv hcall (hcall ▸ hrun)
  | Close => exact close_effect hinv hcall (hcall ▸ hrun)
  | ExtendProgram n =>
    rw [hcall] at hrun
    obtain ⟨-, hrun⟩ := throwIf_inv hrun
    exact extend_effect hinv (.inl hcall) hrun
  | ExtendProgramChecked n =>
    rw [hcall] at hrun
    obtain ⟨-, hrun⟩ := throwIf_inv hrun
    exact extend_effect hinv (.inr hcall) hrun
  | Migrate =>
    rw [hcall] at hrun
    cases hrun

omit hinv

theorem Executes.effect {signers : List Pubkey} {w w' : World History} (h : Executes L clock call signers w w') :
    Effect L clock signers call w.accounts w'.accounts ∧ w'.history = L.record clock call w.accounts w.history := by
  obtain ⟨env, ctx, rent, ic, a, a', hstates, hclock, hderive, -, hinv, hnames, rfl, hhistory⟩ := h
  exact ⟨processLoaderUpgradeableInstruction_effect ⟨hinv, hstates, hclock, hderive, hnames⟩ hinv.run, hhistory⟩

end Effects

end Svm.LoaderV3
