import Svm.Proof.Nonce
import Svm.Proof.Programs.LoaderV3
import Svm.Proof.Programs.LoaderV3States

/-!
# Loader v3: authority and immutability

Every instruction, every other program and the removal of accounts keep to `Policy` at
every address (`Step.policy`). What carries it over a run is that a ProgramData account
always has lamports, so that no transaction removes it (`Funded`).
-/

namespace Svm.LoaderV3

open Machine Run Bytes Ledger UpgradeableLoaderState Function Loader StateLibrary

section Ledger

variable {L : Loader} {clock slot : UInt64} {signers : List Pubkey} {call : Call} {w w' : Accounts}
  {key buffer account authority recipient program programdata : Pubkey} {f f' : AccountFields}
  {state : UpgradeableLoaderState} {action : Action Call} {start : Nat} {bytes : List UInt8}

/-! ## States of accounts -/

theorem stateOf_congr (hdata : f'.data = f.data) (howner : f'.owner = f.owner) : L.stateOf f' = L.stateOf f := by
  rw [stateOf, stateOf, hdata, howner]

theorem owner_of_stateOf (h : L.stateOf f = some state) : f.owner = L.id := by
  by_contra hne
  rw [stateOf, if_neg hne] at h
  cases h

theorem deserialize_of_stateOf (h : L.stateOf f = some state) : L.states.deserialize f.data = some state := by
  rw [← h, stateOf, if_pos (owner_of_stateOf h)]

theorem stateOf_of_data_nil (h : f.data = []) : L.stateOf f = none := by
  rw [stateOf, h, deserialize_nil, ite_self]

/-- The state is in the first bytes. -/
theorem stateOf_of_take (h : L.stateOf f = some state) (howner : f'.owner = f.owner)
    (hn : state.serializedSize ≤ n) (htake : f'.data.take n = f.data.take n) : L.stateOf f' = some state :=
  stateOf_eq (howner.trans (owner_of_stateOf h))
    (deserialize_of_take (deserialize_of_stateOf h) hn htake)

theorem Emptied.stateOf (h : Emptied f f') (hstate : L.stateOf f = some (.Buffer (some authority))) :
    L.stateOf f' = some (.Buffer (some authority)) := by
  rw [h]
  refine stateOf_of_take hstate rfl (le_refl 37) ?_
  show (f.data.take 37).take 37 = f.data.take 37
  rw [List.take_take, min_self]

theorem Paid.stateOf (h : Paid f f') : L.stateOf f' = L.stateOf f := by
  obtain ⟨l, rfl⟩ := h
  exact stateOf_congr rfl rfl

theorem Credited.paid (h : Credited f f') : Paid f f' := by
  obtain ⟨l, -, rfl⟩ := h
  exact ⟨l, rfl⟩

theorem authorityOf_congr (h : L.stateOf f' = L.stateOf f) : L.authorityOf f' = L.authorityOf f := by
  rw [authorityOf, authorityOf, h]

/-! ## Instructions -/

theorem Funds.of_ne (hu : call.instruction ≠ .Upgrade) (hc : call.instruction ≠ .Close) : Funds call w w' key :=
  ⟨fun _ => ⟨fun h => absurd h hu, fun h => absurd h hc⟩, fun _ => ⟨fun h => absurd h hu, fun h => absurd h hc⟩⟩

theorem Funds.same (h : (w' key).lamports = (w key).lamports) : Funds call w w' key :=
  ⟨fun hlt => absurd (h ▸ hlt) (UInt64.lt_irrefl _), fun hlt => absurd (h ▸ hlt) (UInt64.lt_irrefl _)⟩

theorem Funds.of_instruction (h : Funds call w w' key) (call' : Call) (signers')
    (hcall : Action.instruction call signers = .instruction call' signers') : Funds call' w w' key := by
  cases hcall
  exact h

/-- An account whose bytes and owner stay. -/
theorem Policy.of_kept (hdata : (w' key).data = (w key).data) (howner : (w' key).owner = (w key).owner)
    (hle : (w key).lamports ≤ (w' key).lamports)
    (hfunds : ∀ call signers, action = .instruction call signers → Funds call w w' key) :
    Policy L action w w' key where
  immutable _ _ := ⟨hdata, howner, hle⟩
  program _ _ _ hne := absurd (by rw [programOf, programOf, hdata]) hne
  authority _ _ h h' hne := by
    rw [authorityOf_congr (stateOf_congr hdata howner), h] at h'
    exact absurd (Option.some.inj h').symm hne
  funds := hfunds

theorem Policy.same (h : w' key = w key) : Policy L action w w' key :=
  .of_kept (by rw [h]) (by rw [h]) (by rw [h]; exact UInt64.le_refl _) fun _ _ _ => .same (by rw [h])

/-- An account that is no ProgramData account, and whose authority stays. -/
theorem Policy.of_authority (hstate : ∀ slot authority, L.stateOf (w key) ≠ some (.ProgramData slot authority))
    (hauthority : ∀ authority authority', L.authorityOf (w key) = some authority →
      L.authorityOf (w' key) = some authority' → authority' = authority)
    (hfunds : Funds call w w' key) : Policy L (.instruction call signers) w w' key where
  immutable slot h := absurd h (hstate slot none)
  program slot authority h := absurd h (hstate slot (some authority))
  authority authority authority' h h' hne := absurd (hauthority authority authority' h h') hne
  funds := hfunds.of_instruction

/-- An account without a state. -/
theorem Policy.of_none (h : L.stateOf (w key) = none)
    (hfunds : ∀ call signers, action = .instruction call signers → Funds call w w' key) :
    Policy L action w w' key where
  immutable _ h' := nomatch h.symm.trans h'
  program _ _ h' := nomatch h.symm.trans h'
  authority authority _ h' := by
    rw [authorityOf, h] at h'
    cases h'
  funds := hfunds

theorem authorityOf_buffer {authority : Option Pubkey} (h : L.stateOf f = some (.Buffer authority)) :
    L.authorityOf f = some authority := by rw [authorityOf, h]

theorem authorityOf_programData {authority : Option Pubkey} (h : L.stateOf f = some (.ProgramData slot authority)) :
    L.authorityOf f = some authority := by
  rw [authorityOf, h]

theorem authorityOf_uninitialized (h : L.stateOf f = some .Uninitialized) : L.authorityOf f = none := by
  rw [authorityOf, h]

/-- An account that is uninitialized. -/
theorem Policy.of_uninitialized (h : L.stateOf (w key) = some .Uninitialized) (hfunds : Funds call w w' key) :
    Policy L (.instruction call signers) w w' key := by
  refine .of_authority (fun slot authority h' => ?_) (fun authority authority' h' => ?_) hfunds
  · rw [h] at h'
    cases h'
  · rw [authorityOf_uninitialized h] at h'
    cases h'

/-- A Buffer that stays one with its authority. -/
theorem Policy.of_buffer {authority : Option Pubkey} (h : L.stateOf (w key) = some (.Buffer authority))
    (h' : L.stateOf (w' key) = some (.Buffer authority)) (hfunds : Funds call w w' key) :
    Policy L (.instruction call signers) w w' key := by
  refine .of_authority (fun slot authority' hstate => ?_) (fun x y hx hy => ?_) hfunds
  · rw [h] at hstate
    cases hstate
  · rw [authorityOf_buffer h] at hx
    rw [authorityOf_buffer h'] at hy
    exact Option.some.inj (hy.symm.trans hx)

theorem Initializes.policy (h : Initializes L call buffer authority w w') (key) :
    Policy L (.instruction call signers) w w' key := by
  by_cases hkey : key = buffer
  · subst hkey
    exact .of_uninitialized h.before (.of_ne (by rw [h.instruction]; nofun) (by rw [h.instruction]; nofun))
  · exact .same (h.after ▸ update_of_ne hkey ..)

theorem Writes.stateOf_after (h : Writes L signers call buffer authority start bytes w w') :
    L.stateOf (w' buffer) = some (.Buffer (some authority)) := by
  rw [h.after, update_self]
  exact stateOf_of_take h.before rfl (le_refl 37) (take_overwrite h.behind (by have := h.fits; omega))

theorem Writes.policy (h : Writes L signers call buffer authority start bytes w w') (key) :
    Policy L (.instruction call signers) w w' key := by
  by_cases hkey : key = buffer
  · subst hkey
    obtain ⟨offset, hcall⟩ := h.instruction
    exact .of_buffer h.before h.stateOf_after (.of_ne (by rw [hcall]; nofun) (by rw [hcall]; nofun))
  · exact .same (h.after ▸ update_of_ne hkey ..)

/-- A state that is no longer than the metadata leaves the program as it is. -/
theorem programOf_withState (hsize : state.serializedSize ≤ sizeOfProgramdataMetadata) :
    programOf (L.withState f state) = programOf f := by
  refine drop_overwrite ?_ (Nat.zero_le _)
  rw [zero_add, L.states.length_serialize]
  exact hsize

theorem Reassigns.policy (h : Reassigns L signers call account authority state state' w w') (key) :
    Policy L (.instruction call signers) w w' key := by
  by_cases hkey : key = account
  · subst hkey
    have hafter : w' key = L.withState (w key) state' := by rw [h.after, update_self]
    have hstate := h.before
    refine ⟨fun slot hnone => ?_, fun slot current hsome hne => ?_, fun x y hx _ _ => ⟨authority, ?_, ?_⟩, ?_⟩
    · rw [hstate] at hnone
      cases Option.some.inj hnone
      cases h.reassigned
    · rw [hstate] at hsome
      cases Option.some.inj hsome
      refine absurd ?_ hne
      rw [hafter]
      cases h.reassigned with
      | programData _ newAuthority =>
        refine programOf_withState ?_
        cases newAuthority <;> exact Nat.le_of_ble_eq_true rfl
    · cases h.reassigned with
      | buffer newAuthority => exact Option.some.inj (hx.symm.trans (authorityOf_buffer hstate))
      | programData slot newAuthority => exact Option.some.inj (hx.symm.trans (authorityOf_programData hstate))
    · exact ⟨call, signers, rfl, h.signed⟩
    · exact (Funds.same (by rw [hafter]; rfl)).of_instruction
  · exact .same (h.after ▸ update_of_ne hkey ..)

theorem Deploys.policy (h : Deploys L clock signers call k w w') (key) :
    Policy L (.instruction call signers) w w' key := by
  obtain ⟨maxDataLen, hcall⟩ := h.instruction
  have hfunds : Funds call w w' key := .of_ne (by rw [hcall]; nofun) (by rw [hcall]; nofun)
  by_cases hpayer : key = k.payer
  · exact .of_none (stateOf_of_data_nil (hpayer ▸ h.payer_before)) hfunds.of_instruction
  by_cases hprogramdata : key = k.programdata
  · exact .of_none (stateOf_of_data_nil (hprogramdata ▸ h.programdata_before.1)) hfunds.of_instruction
  by_cases hprogram : key = k.program
  · exact .of_uninitialized (hprogram ▸ h.program_before) hfunds
  by_cases hbuffer : key = k.buffer
  · subst hbuffer
    exact .of_buffer h.buffer_before (h.buffer_after.stateOf h.buffer_before) hfunds
  · exact .same (h.others key hpayer hprogramdata hprogram hbuffer)

theorem Credited.policy (h : Credited (w key) (w' key)) (hfunds : (w key).lamports ≤ (w' key).lamports →
    Funds call w w' key) : Policy L (.instruction call signers) w w' key := by
  obtain ⟨l, hle, hafter⟩ := h
  have hle' : (w key).lamports ≤ (w' key).lamports := hafter ▸ hle
  exact .of_kept (by rw [hafter]) (by rw [hafter]) hle' (hfunds hle').of_instruction

theorem Upgrades.policy (h : Upgrades L clock signers call k slot w w') (key) :
    Policy L (.instruction call signers) w w' key := by
  have hclose : call.instruction ≠ .Close := by rw [h.instruction]; nofun
  by_cases hprogramdata : key = k.programdata
  · subst hprogramdata
    refine ⟨fun slot' hnone => ?_, fun slot' current hsome _ => ?_, fun x y hx hy hne => ?_, ?_⟩
    · rw [h.programdata_before] at hnone
      cases hnone
    · rw [h.programdata_before] at hsome
      cases hsome
      obtain ⟨n, hbytes⟩ := h.program_bytes
      exact ⟨call, signers, rfl, .upgrade n h.instruction h.signed h.buffer_named h.buffer_before hbytes⟩
    · rw [authorityOf_programData h.programdata_before] at hx
      rw [authorityOf_programData h.programdata_after] at hy
      exact absurd (Option.some.inj (hy.symm.trans hx)) hne
    · exact Funds.of_instruction ⟨fun _ => ⟨fun _ => .inl h.programdata_named, fun h' => absurd h' hclose⟩,
        fun _ => ⟨fun _ => .inl h.programdata_named, fun h' => absurd h' hclose⟩⟩
  by_cases hbuffer : key = k.buffer
  · subst hbuffer
    refine .of_buffer h.buffer_before (h.buffer_after.stateOf h.buffer_before) ⟨fun _ => ?_, fun hlt => ?_⟩
    · exact ⟨fun _ => .inr h.buffer_named, fun h' => absurd h' hclose⟩
    · rw [h.buffer_after] at hlt
      exact absurd hlt (by simp)
  by_cases hspill : key = k.spill
  · subst hspill
    refine h.spill_after.policy fun hle => ⟨fun hlt => absurd hle (UInt64.not_le.mpr hlt), fun _ => ?_⟩
    exact ⟨fun _ => .inr h.spill_named, fun h' => absurd h' hclose⟩
  · exact .same (h.others key hprogramdata hbuffer hspill)

theorem Closes.stateOf_after (h : Closes L clock signers call account recipient state w w') :
    L.stateOf (w' account) = some .Uninitialized := by
  rw [h.account_after]
  exact stateOf_eq (show (w account).owner = L.id from owner_of_stateOf h.before)
    (L.states.deserialize_eq_some.mpr List.prefix_rfl)

theorem Closes.policy (h : Closes L clock signers call account recipient state w w') (key) :
    Policy L (.instruction call signers) w w' key := by
  have hupgrade : call.instruction ≠ .Upgrade := by rw [h.instruction]; nofun
  by_cases haccount : key = account
  · subst haccount
    have hstate := h.before
    refine ⟨fun slot hnone => ?_, fun slot current hsome _ => ?_, fun x y _ hy _ => ?_, ?_⟩
    · rw [hstate] at hnone
      cases Option.some.inj hnone
      cases h.may
    · rw [hstate] at hsome
      cases Option.some.inj hsome
      cases h.may with
      | programData _ _ program hsigned => exact ⟨call, signers, rfl, .close h.instruction hsigned⟩
    · rw [authorityOf_uninitialized h.stateOf_after] at hy
      cases hy
    · refine Funds.of_instruction
        ⟨fun _ => ⟨fun h' => absurd h' hupgrade, fun _ => h.account_named⟩, fun hlt => ?_⟩
      rw [h.account_after] at hlt
      exact absurd hlt (by simp)
  by_cases hrecipient : key = recipient
  · subst hrecipient
    refine h.recipient_after.policy fun hle => ⟨fun hlt => absurd hle (UInt64.not_le.mpr hlt), fun _ => ?_⟩
    exact ⟨fun h' => absurd h' hupgrade, fun _ => h.recipient_named⟩
  · exact .same (h.others key haccount hrecipient)

theorem Extends.policy (h : Extends L clock call programdata program authority slot n w w') (key) :
    Policy L (.instruction call signers) w w' key := by
  have hfunds : Funds call w w' key := by
    rcases h.instruction with hcall | hcall <;> exact .of_ne (by rw [hcall]; nofun) (by rw [hcall]; nofun)
  by_cases hprogramdata : key = programdata
  · subst hprogramdata
    refine ⟨fun slot' hnone => ?_, fun slot' current hsome _ => ?_, fun x y hx hy hne => ?_, ?_⟩
    · rw [h.before] at hnone
      cases hnone
    · exact ⟨call, signers, rfl, .extend n h.instruction h.program_bytes⟩
    · rw [authorityOf_programData h.before] at hx
      rw [authorityOf_programData h.after] at hy
      exact absurd (Option.some.inj (hy.symm.trans hx)) hne
    · exact hfunds.of_instruction
  · rcases h.others key hprogramdata with hsame | ⟨hdata, -⟩
    · exact .same hsame
    · exact .of_none (stateOf_of_data_nil hdata) hfunds.of_instruction

/-- An instruction keeps to the policy. -/
theorem Effect.policy (h : Effect L clock signers call w w') (key) :
    Policy L (.instruction call signers) w w' key := by
  cases h with
  | init h | write h | reassign h | deploy h | upgrade h | close h | extend h => exact h.policy key

/-! ## Other programs, and removal -/

theorem policy_other (hp : program ≠ L.id) (h : ProgramMay program (w key) (w' key)) :
    Policy L (.other program) w w' key := by
  obtain ⟨-, hdata, howner, hle⟩ | ⟨howner, -⟩ := h.cases hp
  · exact .of_kept hdata howner hle nofun
  · exact .of_none (if_neg howner) nofun

/-! ## Records

What an account says about deployments: the address that a Program account names, or the
slot of a ProgramData account. -/

inductive Record where
  | program (programdata : Pubkey)
  | programData (slot : UInt64)
deriving DecidableEq

def Loader.recordOf (L : Loader) (f : AccountFields) : Option Record :=
  match L.stateOf f with
  | some (.Program programdata) => some (.program programdata)
  | some (.ProgramData slot _) => some (.programData slot)
  | _ => none

theorem recordOf_congr (h : L.stateOf f' = L.stateOf f) : L.recordOf f' = L.recordOf f := by
  rw [recordOf, recordOf, h]

theorem recordOf_program :
    L.recordOf f = some (.program programdata) ↔ L.stateOf f = some (.Program programdata) := by
  rw [recordOf]
  split <;> simp_all

theorem recordOf_programData :
    L.recordOf f = some (.programData slot) ↔ ∃ authority, L.stateOf f = some (.ProgramData slot authority) := by
  rw [recordOf]
  split <;> simp_all

theorem recordOf_none (h : L.stateOf f = none) : L.recordOf f = none := by rw [recordOf, h]

theorem recordOf_uninitialized (h : L.stateOf f = some .Uninitialized) : L.recordOf f = none := by
  rw [recordOf, h]

theorem recordOf_buffer {authority : Option Pubkey} (h : L.stateOf f = some (.Buffer authority)) :
    L.recordOf f = none := by rw [recordOf, h]

theorem recordOf_absent : L.recordOf absent = none := recordOf_none (stateOf_of_data_nil rfl)

/-- The record stays, and an account with one is not debited. -/
structure Quiet (L : Loader) (f f' : AccountFields) : Prop where
  record : L.recordOf f' = L.recordOf f
  funded : L.recordOf f ≠ none → f.lamports ≤ f'.lamports

theorem Quiet.refl (f) : Quiet L f f := ⟨rfl, fun _ => UInt64.le_refl _⟩

theorem Quiet.of_eq (h : f' = f) : Quiet L f f' := by
  rw [h]
  exact .refl f

theorem Quiet.of_none (h : L.recordOf f = none) (h' : L.recordOf f' = none) : Quiet L f f' :=
  ⟨h'.trans h.symm, fun hne => absurd h hne⟩

theorem Quiet.of_credited (h : Credited f f') : Quiet L f f' := by
  refine ⟨recordOf_congr h.paid.stateOf, fun _ => ?_⟩
  obtain ⟨l, hle, rfl⟩ := h
  exact hle

theorem Quiet.of_emptied (h : Emptied f f') (hstate : L.stateOf f = some (.Buffer (some authority))) :
    Quiet L f f' := .of_none (recordOf_buffer hstate) (recordOf_buffer (h.stateOf hstate))

/-- An account that had no data and paid. -/
theorem Quiet.of_paid (hdata : f.data = []) (h : Paid f f') : Quiet L f f' :=
  .of_none (recordOf_none (stateOf_of_data_nil hdata)) (recordOf_none (h.stateOf.trans (stateOf_of_data_nil hdata)))

theorem Quiet.of_programMay (hp : program ≠ L.id) (h : ProgramMay program f f') : Quiet L f f' := by
  obtain ⟨-, hdata, howner, hle⟩ | ⟨howner, hzero⟩ := h.cases hp
  · exact ⟨recordOf_congr (stateOf_congr hdata howner), fun _ => hle⟩
  · refine .of_none (recordOf_none (if_neg howner)) ?_
    cases hstate : L.stateOf f' with
    | none => exact recordOf_none hstate
    | some state =>
      have hun := deserialize_zeros (hzero (owner_of_stateOf hstate)) (deserialize_of_stateOf hstate)
      exact recordOf_uninitialized (hun ▸ hstate)

/-- What an instruction does to the records. -/
inductive Shape (L : Loader) (clock : UInt64) (call : Call) (w w' : Accounts) : Prop
  | quiet (affected : L.affected call w = none) (quiet : ∀ key, Quiet L (w key) (w' key))
  | deployed (program : Pubkey) (affected : L.affected call w = some (program, false))
      (before : L.recordOf (w program) = none) (vacant : L.recordOf (w (L.programdataAddress program)) = none)
      (after : L.recordOf (w' program) = some (.program (L.programdataAddress program)))
      (created : L.recordOf (w' (L.programdataAddress program)) = some (.programData clock))
      (funded : (w' (L.programdataAddress program)).lamports ≠ 0)
      (others : ∀ key, key ≠ program → key ≠ L.programdataAddress program → Quiet L (w key) (w' key))
  | updated (program programdata : Pubkey) (slot : UInt64) (affected : L.affected call w = some (program, false))
      (named : L.recordOf (w program) = some (.program programdata))
      (before : L.recordOf (w programdata) = some (.programData slot)) (slot_ne : clock ≠ slot)
      (after : L.recordOf (w' programdata) = some (.programData clock))
      (funded : (w programdata).lamports ≠ 0 → (w' programdata).lamports ≠ 0)
      (others : ∀ key, key ≠ programdata → Quiet L (w key) (w' key))
  | closed (program programdata : Pubkey) (slot : UInt64) (affected : L.affected call w = some (program, true))
      (named : L.recordOf (w program) = some (.program programdata))
      (before : L.recordOf (w programdata) = some (.programData slot)) (slot_ne : clock ≠ slot)
      (after : L.recordOf (w' programdata) = none)
      (others : ∀ key, key ≠ programdata → Quiet L (w key) (w' key))

theorem Initializes.shape (h : Initializes L call buffer authority w w') : Shape L clock call w w' := by
  refine .quiet (by rw [affected, h.instruction]) fun key => ?_
  by_cases hkey : key = buffer
  · subst hkey
    refine .of_none (recordOf_uninitialized h.before) ?_
    rw [h.after, update_self]
    exact recordOf_buffer (stateOf_withState (owner_of_stateOf h.before) _)
  · exact .of_eq (h.after ▸ update_of_ne hkey ..)

theorem Writes.shape (h : Writes L signers call buffer authority start bytes w w') : Shape L clock call w w' := by
  obtain ⟨offset, hcall⟩ := h.instruction
  refine .quiet (by rw [affected, hcall]) fun key => ?_
  by_cases hkey : key = buffer
  · subst hkey
    exact .of_none (recordOf_buffer h.before) (recordOf_buffer h.stateOf_after)
  · exact .of_eq (h.after ▸ update_of_ne hkey ..)

theorem Reassigns.shape
    (h : Reassigns L signers call account authority state state' w w') : Shape L clock call w w' := by
  refine .quiet (by rcases h.instruction with hcall | hcall <;> rw [affected, hcall]) fun key => ?_
  by_cases hkey : key = account
  · subst hkey
    have hafter : w' key = L.withState (w key) state' := by rw [h.after, update_self]
    have hstate' : L.stateOf (w' key) = some state' := by
      rw [hafter]
      exact stateOf_withState (owner_of_stateOf h.before) _
    refine ⟨?_, fun _ => hafter ▸ UInt64.le_refl _⟩
    rw [recordOf, recordOf, hstate', h.before]
    cases h.reassigned <;> rfl
  · exact .of_eq (h.after ▸ update_of_ne hkey ..)

theorem Deploys.shape (h : Deploys L clock signers call k w w') : Shape L clock call w w' := by
  obtain ⟨maxDataLen, hcall⟩ := h.instruction
  have hderived := h.derived
  refine .deployed k.program ?_ (recordOf_uninitialized h.program_before) ?_ ?_ ?_ ?_ fun key hprogram hprogramdata => ?_
  · rw [affected, hcall]
    simp [h.program_named]
  · exact recordOf_none (stateOf_of_data_nil (hderived ▸ h.programdata_before.1))
  · exact hderived ▸ recordOf_program.mpr h.program_after
  · exact hderived ▸ recordOf_programData.mpr ⟨_, h.programdata_after⟩
  · exact hderived ▸ h.programdata_funded
  · rw [← hderived] at hprogramdata
    by_cases hpayer : key = k.payer
    · exact hpayer ▸ .of_paid h.payer_before h.payer_after
    by_cases hbuffer : key = k.buffer
    · exact hbuffer ▸ .of_emptied h.buffer_after h.buffer_before
    · exact .of_eq (h.others key hpayer hprogramdata hprogram hbuffer)

theorem Upgrades.shape (h : Upgrades L clock signers call k slot w w') : Shape L clock call w w' := by
  refine .updated k.program k.programdata slot ?_ (recordOf_program.mpr h.program_state)
    (recordOf_programData.mpr ⟨_, h.programdata_before⟩) h.slot_ne (recordOf_programData.mpr ⟨_, h.programdata_after⟩)
    (fun _ => h.programdata_funded) fun key hprogramdata => ?_
  · rw [affected, h.instruction]
    simp [h.program_named]
  by_cases hbuffer : key = k.buffer
  · exact hbuffer ▸ .of_emptied h.buffer_after h.buffer_before
  by_cases hspill : key = k.spill
  · exact hspill ▸ .of_credited h.spill_after
  · exact .of_eq (h.others key hprogramdata hbuffer hspill)

theorem Closes.shape (h : Closes L clock signers call account recipient state w w') : Shape L clock call w w' := by
  have hothers (key : Pubkey) (hkey : key ≠ account) : Quiet L (w key) (w' key) := by
    by_cases hrecipient : key = recipient
    · exact hrecipient ▸ .of_credited h.recipient_after
    · exact .of_eq (h.others key hkey hrecipient)
  have hafter := recordOf_uninitialized h.stateOf_after
  have hquiet (hrecord : L.recordOf (w account) = none) key : Quiet L (w key) (w' key) := by
    by_cases hkey : key = account
    · exact hkey ▸ .of_none hrecord hafter
    · exact hothers key hkey
  have hstate := h.before
  cases h.may with
  | uninitialized =>
    refine .quiet ?_ (hquiet (recordOf_uninitialized hstate))
    simp [affected, h.instruction, h.account_named, hstate]
  | buffer authority signed =>
    refine .quiet ?_ (hquiet (recordOf_buffer hstate))
    simp [affected, h.instruction, h.account_named, hstate]
  | programData slot authority program signed slot_ne named program_state =>
    refine .closed program account slot ?_ (recordOf_program.mpr program_state)
      (recordOf_programData.mpr ⟨_, hstate⟩) slot_ne hafter hothers
    simp [affected, h.instruction, h.account_named, hstate, named]

theorem Extends.shape
    (h : Extends L clock call programdata program authority slot n w w') : Shape L clock call w w' := by
  refine .updated program programdata slot ?_ (recordOf_program.mpr h.program_state)
    (recordOf_programData.mpr ⟨_, h.before⟩) h.slot_ne (recordOf_programData.mpr ⟨_, h.after⟩)
    (fun hl => lamports_ne_zero_of_le hl h.funded) fun key hkey => ?_
  · rcases h.instruction with hcall | hcall <;> rw [affected, hcall] <;>
      simp [h.program_named]
  · rcases h.others key hkey with hsame | ⟨hdata, hpaid⟩
    · exact .of_eq hsame
    · exact .of_paid hdata hpaid

theorem Effect.shape (h : Effect L clock signers call w w') : Shape L clock call w w' := by
  cases h with
  | init h | write h | reassign h | deploy h | upgrade h | close h | extend h => exact h.shape

/-! ## Runs -/

/-- Every ProgramData account has lamports. -/
def Funded (L : Loader) (w : Accounts) : Prop :=
  ∀ key slot, L.recordOf (w key) = some (.programData slot) → (w key).lamports ≠ 0

theorem Quiet.lamports_ne_zero (h : Quiet L f f') (hrecord : L.recordOf f' = some (.programData slot))
    (hf : L.recordOf f = some (.programData slot) → f.lamports ≠ 0) : f'.lamports ≠ 0 := by
  rw [h.record] at hrecord
  exact lamports_ne_zero_of_le (hf hrecord) (h.funded (by rw [hrecord]; nofun))

theorem Shape.funded (h : Shape L clock call w w') (hw : Funded L w) : Funded L w' := by
  intro key slot hrecord
  have hquiet (h : Quiet L (w key) (w' key)) : (w' key).lamports ≠ 0 := h.lamports_ne_zero hrecord (hw key slot)
  cases h with
  | quiet affected quiet => exact hquiet (quiet key)
  | deployed program affected before vacant after created funded others =>
    by_cases hprogramdata : key = L.programdataAddress program
    · exact hprogramdata ▸ funded
    by_cases hprogram : key = program
    · rw [hprogram, after] at hrecord
      cases hrecord
    · exact hquiet (others key hprogram hprogramdata)
  | updated program programdata slot' affected named before slot_ne after funded others =>
    by_cases hkey : key = programdata
    · exact hkey ▸ funded (hw programdata slot' before)
    · exact hquiet (others key hkey)
  | closed program programdata slot' affected named before slot_ne after others =>
    by_cases hkey : key = programdata
    · rw [hkey, after] at hrecord
      cases hrecord
    · exact hquiet (others key hkey)

theorem policy_commit {w : World History} (h : Funded L w.accounts) (key) :
    Policy L .commit w.accounts w.collect.accounts key := by
  by_cases hl : (w.accounts key).lamports = 0
  · have hafter : w.collect.accounts key = absent := if_pos hl
    have hnot (slot : UInt64) (authority : Option Pubkey) (hstate : L.stateOf (w.accounts key) = some (.ProgramData slot authority)) :
        False := h key slot (recordOf_programData.mpr ⟨authority, hstate⟩) hl
    refine ⟨fun slot hstate => (hnot slot none hstate).elim, fun slot authority hstate => (hnot slot _ hstate).elim,
      fun x y _ hy => ?_, nofun⟩
    rw [hafter, authorityOf, stateOf_of_data_nil rfl] at hy
    cases hy
  · exact .same (if_neg hl)

/-- Whatever a transaction leaves has lamports. -/
theorem funded_collect (w : World History) : Funded L w.collect.accounts := by
  intro key slot hrecord
  by_cases hl : (w.accounts key).lamports = 0
  · rw [show w.collect.accounts key = absent from if_pos hl, recordOf_absent] at hrecord
    cases hrecord
  · rw [show w.collect.accounts key = w.accounts key from if_neg hl]
    exact hl

variable {s s' : State History}

/-- Every ProgramData account has lamports, whether the transaction is discarded or not. -/
structure AllFunded (L : Loader) (s : State History) : Prop where
  pending : Funded L s.pending.accounts
  committed : Funded L s.committed.accounts

theorem AllFunded.step (h : AllFunded L s) (hstep : Step (rules L) action s s') : AllFunded L s' := by
  cases hstep with
  | instruction hsign hexec => exact ⟨(Executes.effect hexec).1.shape.funded h.pending, h.committed⟩
  | other hprogram hmay =>
    refine ⟨fun key slot hrecord => ?_, h.committed⟩
    exact (Quiet.of_programMay hprogram (hmay key)).lamports_ne_zero hrecord (h.pending key slot)
  | commit => exact ⟨funded_collect _, funded_collect _⟩
  | abort => exact ⟨h.committed, h.committed⟩
  | tick hle => exact ⟨h.pending, h.committed⟩

theorem State.Settled.allFunded (h : s.Settled) : AllFunded L s := by
  have hcommitted : Funded L s.committed.accounts := by
    intro key slot hrecord hl
    rw [h.funded key hl, recordOf_absent] at hrecord
    cases hrecord
  exact ⟨h.pending ▸ hcommitted, hcommitted⟩

/-- Every step but the discarding of a transaction keeps to the policy. -/
theorem Step.policy (h : AllFunded L s) (hstep : Step (rules L) action s s') (habort : action ≠ .abort) (key) :
    Policy L action s.pending.accounts s'.pending.accounts key := by
  cases hstep with
  | instruction hsign hexec => exact (Executes.effect hexec).1.policy key
  | other hprogram hmay => exact policy_other hprogram (hmay key)
  | commit => exact policy_commit h.pending key
  | abort => exact absurd rfl habort
  | tick hle => exact .same rfl

/-- The bytes and the owner are those of `f`, and no lamports were taken. -/
structure Holds (f f' : AccountFields) : Prop where
  data : f'.data = f.data
  owner : f'.owner = f.owner
  lamports : f.lamports ≤ f'.lamports

theorem Holds.refl (f) : Holds f f := ⟨rfl, rfl, UInt64.le_refl _⟩

/-- The committed and the pending account hold the immutable account `f`. -/
structure ImmutableAs (key : Pubkey) (f : AccountFields) (s : State History) : Prop where
  committed : Holds f (s.committed.accounts key)
  pending : Holds f (s.pending.accounts key)

/-- A ProgramData account without an authority. -/
theorem freezes_immutable (slot) :
    Freezes (rules L) (AllFunded L) (fun f => L.stateOf f = some (.ProgramData slot none)) Holds := by
  intro action s s' f key h hstep habort hf hs
  have hstate := (stateOf_congr hs.data hs.owner).trans hf
  obtain ⟨hdata, howner, hle⟩ := (Step.policy h hstep habort key).immutable slot hstate
  exact ⟨hdata.trans hs.data, howner.trans hs.owner, UInt64.le_trans hs.lamports hle⟩

/-- Loader-v3 authority and immutability. Over every sequence of transactions of loader
instructions with any accounts, interleaved with other programs within the access rules:
every step other than the discarding of a transaction keeps to the rules of `Policy` at
every address, and a ProgramData account that a transaction has left without an upgrade
authority keeps its bytes and its owner from then on, and is not debited. -/
theorem loader_v3_policy (L : Loader) (s₀ s : State History) (hsettled : s₀.Settled) (hreach : Reach (rules L) s₀ s) :
    (∀ action s', Step (rules L) action s s' → action ≠ .abort →
      ∀ key, Policy L action s.pending.accounts s'.pending.accounts key) ∧
    ∀ key slot, L.stateOf (s.committed.accounts key) = some (.ProgramData slot none) →
      ∀ s', Reach (rules L) s s' → ImmutableAs key (s.committed.accounts key) s' := by
  have hfunded₀ : AllFunded L s₀ := State.Settled.allFunded hsettled
  refine ⟨fun action s' hstep habort => Step.policy (hreach.induction AllFunded.step hfunded₀) hstep habort,
    fun key slot hf s' hreach' => ?_⟩
  obtain ⟨hcommitted, hpending⟩ :=
    (freezes_immutable slot).heldAs AllFunded.step .refl hsettled hfunded₀ hreach hf hreach'
  exact ⟨hcommitted, hpending⟩

end Ledger

/-! ## A program that is closed

A ledger with a program of one byte, whose authority closes it. -/

namespace OneProgram

open Bincode

/-- Addresses are derived by doubling every byte. -/
def derive (program : Pubkey) : Pubkey := program.map (2 * ·)

def loader : Loader := ⟨.replicate 32 9, bincodeStates, derive⟩

def program : Pubkey := .replicate 32 1
def programdata : Pubkey := .replicate 32 2
def authority : Pubkey := .replicate 32 3
def recipient : Pubkey := .replicate 32 4

def env (clock : UInt64) : Environment where
  states := bincodeStates
  system := {
    nonces := bincodeNonces id
    blockhash := .replicate 32 0
    blockhashLamportsPerSignature := 0
    errorCode := fun _ => 0
    createWithSeed := fun base _ _ => .ok base
    maxPermittedDataLength := 10 * 1024 * 1024
    createAccountAllowPrefund := false
    rentId := .replicate 32 5
    recentBlockhashesId := .replicate 32 6
    getRent := .ok fun _ => 1
    getRecentBlockhashes := .ok false }
  clockId := .replicate 32 7
  getClock := .ok clock
  findProgramAddress := fun seeds _ => (derive (.ofFn fun i => (seeds.headD []).getD i 0), 255)
  createProgramAddress := fun _ id => .ok id
  enableBpfLoaderSetAuthorityCheckedIx := true
  enableExtendProgramChecked := true
  deployProgram := fun _ _ _ _ _ => .ok ()

theorem findProgramAddress_eq (clock) (program) :
    ((env clock).findProgramAddress [program.toList] loader.id).1 = loader.programdataAddress program := by
  refine congrArg derive ?_
  simp

def rent : Rent := ⟨fun _ _ => true⟩

/-- The program's accounts, the recipient of the lamports, the authority and the loader. -/
def accounts : TransactionAccounts :=
  let account (owner : Pubkey) (data : List UInt8) : AccountSharedData := ⟨5, ⟨data, false, 0⟩, owner, false, 0⟩
  .new [(programdata, account loader.id (encodeLoaderState (.ProgramData 0 (some authority)) ++ [7])),
    (recipient, account SYSTEM_PROGRAM_ID []), (authority, account SYSTEM_PROGRAM_ID []),
    (program, account loader.id (encodeLoaderState (.Program programdata))), (loader.id, account SYSTEM_PROGRAM_ID [])]

def instructionAccounts : List InstructionAccount :=
  [⟨0, false, true⟩, ⟨1, false, true⟩, ⟨2, true, false⟩, ⟨3, false, true⟩]

def ic : InstructionContext := ⟨0, 0, 65535, 4, instructionAccounts, [0, 1, 2, 3], []⟩

def ctx : TransactionContext :=
  { TransactionContext.new [] rent 5 64 1 with
    accounts := accounts
    instructionStack := [0]
    instructionTrace := [{ (default : InstructionFrame) with programAccountIndexInTx := 4 }]
    deduplicationMaps := [[0, 1, 2, 3]]
    instructionAccounts := [instructionAccounts]
    instructionData := [[]] }

def closeCall : Call := ⟨.Close, fun i => (ic.getKeyOfInstructionAccount accounts i).toOption⟩

def closing (clock : UInt64) : AccountsM Unit :=
  processLoaderUpgradeableInstruction (env clock) ctx ic rent .Close

/-- The accounts after the closing. -/
def closed : TransactionAccounts := final (closing 1) accounts

def settled : State History :=
  ⟨⟨ofAccounts accounts, fun _ => ⟨[], false⟩⟩, ⟨ofAccounts accounts, fun _ => ⟨[], false⟩⟩, 1⟩

def afterClose : State History :=
  ⟨settled.committed, ⟨ofAccounts closed, update (fun _ => ⟨[], false⟩) program ⟨[1], true⟩⟩, 1⟩

theorem settled_settled : settled.Settled := settled_ofAccounts _ _ _ (by decide +kernel)

theorem closing_eq : (closing 1).run accounts = .ok () closed := run_of_isOk (by decide +kernel)

theorem step_close : Step (rules loader) (.instruction closeCall [authority]) settled afterClose := by
  refine .instruction (fun _ _ => trivial) ⟨env 1, ctx, rent, ic, accounts, closed, rfl, rfl, findProgramAddress_eq 1, ?_,
    .of_run (by decide +kernel) (by decide +kernel) (by decide +kernel) closing_eq (by decide +kernel) (by decide +kernel),
    fun _ => rfl, ?_, ?_⟩
  · rfl
  · decide +kernel
  · rfl

end OneProgram

open OneProgram in
theorem loader_v3_policy_close :
    Policy loader (.instruction closeCall [authority]) settled.pending.accounts afterClose.pending.accounts programdata :=
  (loader_v3_policy loader settled settled settled_settled .refl).1 _ _ step_close nofun programdata

end Svm.LoaderV3
