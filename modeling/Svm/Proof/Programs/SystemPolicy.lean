import Svm.Proof.Nonce
import Svm.Proof.Programs.System

/-!
# The system program keeps its policy

* `system_program_authorised`: an instruction takes lamports, space, data or the owner
  from an account only with a signature for it, and the lamports are only moved.
* `nonce_state_machine`: in any sequence of transactions a nonce account keeps its rent
  minimum, and its state changes as `NonceRules` says.
-/

namespace Svm.System

open Machine Run Ledger AccountFields

section Effects

variable {env : Environment} {ic : InstructionContext} {rent : Rent} {a a' : TransactionAccounts}
  {signers : List Pubkey} {i : SystemInstruction} {key : Pubkey} {f f' : AccountFields}

/-! ## The state in the data -/

section State

theorem nonceState_eq (h : nonces.deserialize f.data = some versions) :
    nonceState nonces f = some versions.state := by
  rw [nonceState, h]
  rfl

theorem nonceState_withVersions (h : (nonces.serialize versions).length ≤ f.data.length) :
    nonceState nonces (withVersions nonces f versions) = some versions.state :=
  nonceState_eq (nonces.deserialize_overwrite versions f.data h)

theorem length_withVersions (h : (nonces.serialize versions).length ≤ f.data.length) :
    (withVersions nonces f versions).data.length = f.data.length :=
  Bytes.length_overwrite (by simpa using h)

/-- Zeroed data is no initialized nonce. -/
theorem nonceState_zeroed (h : ∀ byte ∈ f.data, byte = 0) (data) :
    nonceState nonces f ≠ some (.Initialized data) := by
  intro hstate
  obtain ⟨versions, hversions, hinit⟩ := Option.map_eq_some_iff.mp hstate
  rw [List.eq_replicate_of_mem h] at hversions
  rw [nonces.zeroed _ _ hversions] at hinit
  cases hinit

end State

/-! ## Authorisation -/

/-- A balance that may fall only with a signature for the account. -/
theorem Authorised.of_lamports {lamports : UInt64} (h : lamports < f.lamports → Signed env signers key ∨
      f.owner = SYSTEM_PROGRAM_ID ∧ ∃ state, nonceState env.nonces f = some state ∧ NonceSigned signers key state) :
    Authorised env signers key f { f with lamports := lamports } where
  debited := h
  assigned hne := absurd rfl hne
  resized hne := absurd rfl hne
  written hne := absurd rfl hne

/-- A state that is written to a nonce account. -/
theorem Authorised.of_versions {lamports : UInt64} (hdata : env.nonces.deserialize f.data = some versions)
    (hfits : (env.nonces.serialize versions').length ≤ f.data.length)
    (h : lamports < f.lamports → f.owner = SYSTEM_PROGRAM_ID ∧ NonceSigned signers key versions.state) :
    Authorised env signers key f { withVersions env.nonces f versions' with lamports := lamports } where
  debited hlt := .inr ⟨(h hlt).1, _, nonceState_eq hdata, (h hlt).2⟩
  assigned hne := absurd rfl hne
  resized hne := absurd (length_withVersions hfits) hne
  written _ _ := by
    rw [nonceState_eq hdata]
    rfl

theorem Effect.authorised (h : Effect env signers key i f f') : Authorised env signers key f f' := by
  cases h with
  | same => exact .of_lamports fun hlt => absurd hlt (UInt64.lt_irrefl _)
  | credit hle => exact .of_lamports fun hlt => absurd hle (UInt64.not_le.mpr hlt)
  | pay hsigned => exact .of_lamports fun _ => .inl hsigned
  | create hsigned howner hdata hle space owner =>
    exact ⟨fun hlt => absurd hle (UInt64.not_le.mpr hlt), fun _ => ⟨howner, hsigned, by simp [hdata]⟩,
      fun _ => ⟨howner, hsigned, hdata⟩, fun hne hlen => absurd hlen (by simpa [hdata] using hne)⟩
  | assign hsigned howner hdata owner =>
    exact ⟨fun hlt => absurd hlt (UInt64.lt_irrefl _), fun _ => ⟨howner, hsigned, hdata⟩, fun hne => absurd rfl hne,
      fun hne => absurd rfl hne⟩
  | advance _ hdata _ _ _ hfits => exact .of_versions hdata hfits fun hlt => absurd hlt (UInt64.lt_irrefl _)
  | withdrawUninitialized hdata hstate hsigned howner | withdrawPart hdata hstate hsigned _ _ howner =>
    refine .of_lamports fun hlt => .inr ⟨howner.resolve_right (UInt64.not_le.mpr hlt), _, nonceState_eq hdata, ?_⟩
    rw [hstate]
    exact hsigned
  | withdrawAll howner hdata hstate hsigned _ hfits =>
    refine .of_versions hdata hfits fun _ => ⟨howner, ?_⟩
    rw [hstate]
    exact hsigned
  | init _ hdata _ _ _ hfits | authorize _ hdata _ hfits | upgrade _ hdata _ hfits =>
    exact .of_versions hdata hfits fun hlt => absurd hlt (UInt64.lt_irrefl _)

/-! ## The state of a nonce account -/

/-- What an effect does to a nonce that is funded leaves it funded. -/
theorem Effect.funded (hrent : ∀ minimum, env.getRent = .ok minimum → minimum = minimumBalance)
    (h : Effect env signers key i f f') (hf : NonceFunded env.nonces minimumBalance f) :
    NonceFunded env.nonces minimumBalance f' := by
  have hzeroed {f : AccountFields} hz : NonceFunded env.nonces minimumBalance f :=
    fun _ data hstate => absurd hstate (nonceState_zeroed hz data)
  have hwritten {versions versions' : NonceVersions} {data : NonceData} (howner : f.owner = SYSTEM_PROGRAM_ID)
      (hdata : env.nonces.deserialize f.data = some versions) (hstate : versions.state = .Initialized data)
      (hfits : (env.nonces.serialize versions').length ≤ f.data.length) :
      NonceFunded env.nonces minimumBalance (withVersions env.nonces f versions') := by
    intro _ _ _
    rw [length_withVersions hfits]
    exact hf howner data (by rw [nonceState_eq hdata, hstate])
  cases h with
  | same => exact hf
  | credit hle => exact fun howner data hstate => UInt64.le_trans (hf howner data hstate) hle
  | pay _ hdata => exact hzeroed (by simp [hdata])
  | create _ _ _ _ space => exact hzeroed fun byte hbyte => List.eq_of_mem_replicate hbyte
  | assign _ _ hdata => exact hzeroed hdata
  | advance howner hdata hstate _ _ hfits => exact hwritten howner hdata hstate hfits
  | withdrawUninitialized hdata hstate =>
    intro _ data hinit
    have huninit := (nonceState_eq hdata).symm.trans hinit
    rw [hstate] at huninit
    cases huninit
  | withdrawPart _ _ _ hminimum hleft =>
    obtain rfl := hrent _ hminimum
    exact fun _ _ _ => hleft
  | withdrawAll _ _ _ _ _ hfits =>
    intro _ data hinit
    cases (nonceState_withVersions hfits).symm.trans hinit
  | init _ _ _ hminimum hfunded hfits =>
    obtain rfl := hrent _ hminimum
    intro _ _ _
    rw [length_withVersions hfits]
    exact hfunded
  | authorize howner hdata hauth hfits =>
    obtain ⟨nonce, ⟨rfl, -⟩ | ⟨rfl, -⟩⟩ := env.nonces.authorized hauth
    · exact hwritten howner hdata rfl hfits
    · exact hwritten howner hdata rfl hfits
  | upgrade howner hdata hup hfits =>
    obtain ⟨nonce, nonce', rfl, -⟩ := env.nonces.upgraded hup
    exact hwritten howner hdata rfl hfits

/-- An effect that leaves the state alone, and the owner of an initialized nonce. -/
theorem NonceRules.of_same (hdata : f'.data = f.data)
    (howner : ∀ data, nonceState env.nonces f = some (.Initialized data) → f'.owner = f.owner) :
    NonceRules env signers i f f' := by
  have hsame : nonceState env.nonces f' = nonceState env.nonces f := by rw [nonceState, nonceState, hdata]
  refine ⟨fun data data' hstate hstate' hne => ?_, fun data' hstate' hnot => ?_,
    fun data data' hstate hstate' hne => ?_, fun _ _ _ hne => absurd hdata hne, fun data hstate hnot => ?_, howner⟩
  · rw [hsame, hstate] at hstate'
    cases hstate'
    exact absurd rfl hne
  · exact absurd (hsame ▸ hstate') (hnot data')
  · rw [hsame, hstate] at hstate'
    cases hstate'
    exact absurd rfl hne
  · exact absurd (hsame ▸ hstate) (hnot data)

/-- An effect on data that is no initialized nonce, before and after. -/
theorem NonceRules.of_zeroed (hdata : ∀ byte ∈ f.data, byte = 0) (hdata' : ∀ byte ∈ f'.data, byte = 0) :
    NonceRules env signers i f f' where
  authority data _ hstate := absurd hstate (nonceState_zeroed hdata data)
  initialized data' hstate' := absurd hstate' (nonceState_zeroed hdata' data')
  durableNonce data _ hstate := absurd hstate (nonceState_zeroed hdata data)
  advanced data _ hstate := absurd hstate (nonceState_zeroed hdata data)
  closed data hstate := absurd hstate (nonceState_zeroed hdata data)
  owner data hstate := absurd hstate (nonceState_zeroed hdata data)

/-- A change from one initialized nonce to another. -/
theorem NonceRules.of_initialized (hstate : nonceState env.nonces f = some (.Initialized nonce))
    (hstate' : nonceState env.nonces f' = some (.Initialized nonce')) (howner : f'.owner = f.owner)
    (hauthority : nonce'.authority ≠ nonce.authority →
      i = .AuthorizeNonceAccount nonce'.authority ∧ nonce.authority ∈ signers)
    (hnonce : nonce'.durableNonce ≠ nonce.durableNonce → (i = .AdvanceNonceAccount ∧ nonce.authority ∈ signers) ∨
      (i = .UpgradeNonceAccount ∧ ∃ state, env.nonces.deserialize f.data = some (.Legacy state)))
    (hadvanced : i = .AdvanceNonceAccount → nonce.authority ∈ signers ∧ nonce'.durableNonce ≠ nonce.durableNonce) :
    NonceRules env signers i f f' := by
  refine ⟨fun data data' h h' => ?_, fun data' _ hnot => absurd hstate (hnot nonce), fun data data' h h' => ?_,
    fun data hi h _ => ?_, fun data _ hnot => absurd hstate' (hnot nonce'), fun _ _ => howner⟩
  · cases hstate.symm.trans h
    cases hstate'.symm.trans h'
    exact hauthority
  · cases hstate.symm.trans h
    cases hstate'.symm.trans h'
    exact hnonce
  · cases hstate.symm.trans h
    exact ⟨(hadvanced hi).1, nonce', hstate', (hadvanced hi).2⟩

theorem Effect.nonceRules (hdoc : env.nonces.Documented) (h : Effect env signers key i f f') :
    NonceRules env signers i f f' := by
  cases h with
  | same | credit | pay | withdrawUninitialized | withdrawPart => exact .of_same rfl fun _ _ => rfl
  | create _ _ hdata _ space => exact .of_zeroed (by simp [hdata]) fun byte hbyte => List.eq_of_mem_replicate hbyte
  | assign _ _ hdata => exact .of_same rfl fun data hstate => absurd hstate (nonceState_zeroed hdata data)
  | advance _ hdata hstate hsigned hnonce hfits =>
    have hbefore := nonceState_eq hdata
    rw [hstate] at hbefore
    exact .of_initialized hbefore (nonceState_withVersions hfits) rfl
      (fun hne => absurd rfl hne) (fun _ => .inl ⟨rfl, hsigned⟩) fun _ => ⟨hsigned, Ne.symm hnonce⟩
  | withdrawAll howner hdata hstate hsigned hnonce hfits =>
    have hbefore := nonceState_eq hdata
    have hafter := nonceState_withVersions hfits
    rw [hstate] at hbefore
    refine ⟨fun data data' _ h' => ?_, fun data' h' => ?_, fun data data' _ h' => ?_, nofun, fun data h _ => ?_,
      fun _ _ => rfl⟩
    · cases hafter.symm.trans h'
    · cases hafter.symm.trans h'
    · cases hafter.symm.trans h'
    · cases hbefore.symm.trans h
      exact ⟨rfl, hsigned, hnonce, hafter⟩
  | init _ hdata hstate _ _ hfits =>
    have hbefore := nonceState_eq hdata
    have hafter := nonceState_withVersions hfits
    rw [hstate] at hbefore
    refine ⟨fun data _ h => ?_, fun data' h' _ => ?_, fun data _ h => ?_, nofun, fun data h => ?_, fun _ _ => rfl⟩
    · cases hbefore.symm.trans h
    · cases hafter.symm.trans h'
      exact ⟨hbefore, rfl⟩
    · cases hbefore.symm.trans h
    · cases hbefore.symm.trans h
  | authorize _ hdata hauth hfits =>
    have hbefore := nonceState_eq hdata
    have hafter := nonceState_withVersions hfits
    obtain ⟨nonce, ⟨rfl, rfl⟩ | ⟨rfl, rfl⟩⟩ := env.nonces.authorized hauth
    · exact .of_initialized hbefore hafter rfl (fun _ => ⟨rfl, hdoc.authorize_signed hauth rfl⟩)
        (fun hne => absurd rfl hne) nofun
    · exact .of_initialized hbefore hafter rfl (fun _ => ⟨rfl, hdoc.authorize_signed hauth rfl⟩)
        (fun hne => absurd rfl hne) nofun
  | upgrade _ hdata hup hfits =>
    obtain ⟨nonce, nonce', rfl, rfl⟩ := env.nonces.upgraded hup
    exact .of_initialized (nonceState_eq hdata) (nonceState_withVersions hfits) rfl
      (fun hne => absurd (hdoc.upgrade_authority hup rfl rfl) hne) (fun _ => .inr ⟨rfl, _, hdata⟩) nofun

/-! ## Transactions -/

section Transactions

/-- What an instruction did at every address of the ledger. -/
theorem Execution.effect (h : Execution nonces minimumBalance env ic rent a a' i w w') (key) :
    Effect env (ic.signers a) key i (w key) (w' key) := by
  have houtcome := processInstruction_outcome h.invocation.program h.invocation.run
  exact h.invocation.each houtcome.leaves (R := fun key f f' => Effect env (ic.signers a) key i f f')
    (fun _ _ => .same) (fun j _ => houtcome.effect j) key

/-- Every account is funded, in the running transaction and before it. -/
def AllFunded (nonces : NonceLibrary) (minimumBalance : Nat → UInt64) (s : Transactions) : Prop :=
  ∀ key, NonceFunded nonces minimumBalance (s.committed key) ∧ NonceFunded nonces minimumBalance (s.pending key)

theorem TransactionStep.allFunded (h : TransactionStep nonces minimumBalance s s')
    (hs : AllFunded nonces minimumBalance s) : AllFunded nonces minimumBalance s' := by
  intro key
  obtain ⟨hcommitted, hpending⟩ := hs key
  cases h with
  | instruction h =>
    refine ⟨hcommitted, ?_⟩
    obtain rfl := h.library
    exact (h.effect key).funded h.minimum hpending
  | commit => exact ⟨hpending, hpending⟩
  | abort => exact ⟨hcommitted, hcommitted⟩

theorem NonceReach.allFunded (h : NonceReach nonces minimumBalance s s') (hs : AllFunded nonces minimumBalance s) :
    AllFunded nonces minimumBalance s' := by
  induction h with
  | refl => exact hs
  | tail _ hstep ih => exact hstep.allFunded ih

end Transactions

end Effects

/-! ## A nonce that is closed

A nonce account, its authority, the two sysvars and the system program. The whole
balance is withdrawn. -/

namespace ClosedNonce

def nonceKey : Pubkey := .replicate 32 1
def authority : Pubkey := .replicate 32 2
def recentBlockhashes : Pubkey := .replicate 32 3
def rentKey : Pubkey := .replicate 32 4

def nonces : NonceLibrary := Bincode.bincodeNonces id

def minimumBalance (_ : Nat) : UInt64 := 10

def env : Environment where
  nonces := nonces
  blockhash := .replicate 32 9
  blockhashLamportsPerSignature := 5
  errorCode := fun _ => 0
  createWithSeed := fun _ _ _ => .error .InvalidArgument
  maxPermittedDataLength := 100
  createAccountAllowPrefund := true
  rentId := rentKey
  recentBlockhashesId := recentBlockhashes
  getRent := .ok minimumBalance
  getRecentBlockhashes := .ok false

def rent : Rent := ⟨fun _ _ => true⟩

def accounts : TransactionAccounts :=
  let account (lamports : UInt64) (data : List UInt8) : AccountSharedData :=
    ⟨lamports, ⟨data, false, 0⟩, SYSTEM_PROGRAM_ID, false, 0⟩
  .new [(nonceKey, account 100 (Bincode.encodeVersions (.Current (.Initialized ⟨authority, .replicate 32 17, 5⟩)))),
    (authority, account 1000 []), (recentBlockhashes, account 1 []), (rentKey, account 1 []),
    (SYSTEM_PROGRAM_ID, account 1 [])]

def ic : InstructionContext :=
  ⟨0, 0, 65535, 4, [⟨0, false, true⟩, ⟨1, true, true⟩, ⟨2, false, false⟩, ⟨3, false, false⟩], [0, 1, 2, 3], []⟩

def closed : TransactionAccounts := final (processInstruction env ic rent (.WithdrawNonceAccount 100)) accounts

theorem run_eq : (processInstruction env ic rent (.WithdrawNonceAccount 100)).run accounts = .ok () closed :=
  run_of_isOk (by decide +kernel)

theorem documented : nonces.Documented where
  authorize_signed h hstate := by
    rename_i versions versions' signers authority data
    change Bincode.authorize versions signers authority = .ok versions' at h
    rw [Bincode.authorize.eq_def] at h
    split at h
    · split_ifs at h with hsigned
      cases hstate
      exact hsigned
    · split_ifs at h with hsigned
      cases hstate
      exact hsigned
    · cases h
  upgrade_authority h hstate hstate' := by
    rename_i versions versions' data data'
    change Bincode.upgrade id versions = some versions' at h
    rw [Bincode.upgrade.eq_def] at h
    split at h
    · cases h
      cases hstate
      cases hstate'
      rfl
    · cases h

theorem execution : Execution nonces minimumBalance env ic rent accounts closed (.WithdrawNonceAccount 100)
    (ofAccounts accounts) (ofAccounts closed) where
  library := rfl
  minimum _ h := (Except.ok.inj h).symm
  invocation := .of_run (by decide) (by decide) (by decide) run_eq (by decide +kernel) (by decide +kernel)

theorem funded (key) : NonceFunded nonces minimumBalance (ofAccounts accounts key) := by
  have hslots : ∀ s ∈ accounts.slots, 10 ≤ s.view.lamports ∨ s.view.data = [] := by decide +kernel
  have hempty {f : AccountFields} (hdata : f.data = []) : NonceFunded nonces minimumBalance f :=
    fun _ data hstate => absurd hstate (nonceState_zeroed (by simp [hdata]) data)
  by_cases hkey : key ∈ accounts.accountKeys
  · obtain ⟨s, hs, rfl⟩ := List.mem_map.mp hkey
    rw [← (represents_ofAccounts (by decide) (by decide)).fields s hs]
    obtain hle | hdata := hslots s hs
    · exact fun _ _ _ => hle
    · exact hempty hdata
  · rw [ofAccounts_of_notMem hkey]
    exact hempty rfl

end ClosedNonce

/-! ## The policy -/

/-- An instruction of the system program takes from an account only what is signed for,
and moves lamports only. -/
theorem system_program_authorised {env : Environment} {ic : InstructionContext} {rent : Rent}
    {a a' : TransactionAccounts} {i : SystemInstruction}
    (hprogram : a.accountKey ic.programAccountIndexInTx = some SYSTEM_PROGRAM_ID)
    (h : (processInstruction env ic rent i).run a = .ok () a') :
    (∀ (k : Nat) (s s' : AccountSlot), a.slots[k]? = some s → a'.slots[k]? = some s' →
      Authorised env (ic.signers a) s.view.key s.view.fields s'.view.fields) ∧
      a'.totalLamports = a.totalLamports := by
  have houtcome := processInstruction_outcome hprogram h
  have hlen : a'.len = a.len := houtcome.leaves.len
  refine ⟨fun k s s' hs hs' => ?_, ?_⟩
  · by_cases hk : k < 2 ^ 16
    · obtain ⟨j, rfl⟩ : ∃ j : UInt16, j.toNat = k := ⟨.ofNat k, UInt16.toNat_ofNat_of_lt' hk⟩
      have hj : j.toNat < a.len := (getElem?_eq_some_iff.mp hs).1
      rw [TransactionAccounts.getElem?_slots hj] at hs
      rw [TransactionAccounts.getElem?_slots (hlen ▸ hj)] at hs'
      cases hs
      cases hs'
      exact (houtcome.effect j).authorised
    · -- No index reaches the account.
      have hbeyond := congrArg (fun l => l[k - 2 ^ 16]?) houtcome.leaves.beyond
      simp only [List.getElem?_drop, Nat.add_sub_cancel' (Nat.le_of_not_lt hk), hs, hs'] at hbeyond
      cases hbeyond
      exact (Effect.same (i := i)).authorised
  · have hreach : reach a' = reach a := by rw [reach, reach, hlen]
    rw [totalLamports_eq, totalLamports_eq, houtcome.leaves.beyond, hreach, houtcome.lamports]

open ClosedNonce in
theorem system_program_authorised_closed :
    Authorised ClosedNonce.env (ClosedNonce.ic.signers accounts) nonceKey (accounts.fieldsAt 0) (closed.fieldsAt 0) ∧
      closed.totalLamports = accounts.totalLamports := by
  obtain ⟨hauthorised, htotal⟩ := system_program_authorised (by decide) run_eq
  exact ⟨hauthorised 0 (accounts.slot 0) (closed.slot 0) (by decide +kernel) (by decide +kernel), htotal⟩

/-- In any sequence of transactions a nonce account keeps its rent minimum while it is
initialized, and every instruction changes its state by the rules. -/
theorem nonce_state_machine {nonces : NonceLibrary} {minimumBalance : Nat → UInt64} {w : Accounts} {s : Transactions}
    (hdoc : nonces.Documented) (hstart : ∀ key, NonceFunded nonces minimumBalance (w key))
    (hreach : NonceReach nonces minimumBalance ⟨w, w⟩ s) :
    AllFunded nonces minimumBalance s ∧
      ∀ {env : Environment} {ic : InstructionContext} {rent : Rent} {a a' : TransactionAccounts}
        {i : SystemInstruction} {w' : Accounts},
        Execution nonces minimumBalance env ic rent a a' i s.pending w' →
          ∀ key, NonceRules env (ic.signers a) i (s.pending key) (w' key) := by
  refine ⟨hreach.allFunded fun key => ⟨hstart key, hstart key⟩, fun h key => ?_⟩
  obtain rfl := h.library
  exact (h.effect key).nonceRules hdoc

open ClosedNonce in
/-- The nonce account is closed by the rules, in the second of two transactions that
withdraw its balance; the first one failed later. -/
theorem nonce_state_machine_closed :
    NonceRules ClosedNonce.env (ClosedNonce.ic.signers accounts) (.WithdrawNonceAccount 100)
      (ofAccounts accounts nonceKey) (ofAccounts closed nonceKey) := by
  have hstep : TransactionStep nonces minimumBalance ⟨ofAccounts accounts, ofAccounts accounts⟩
      ⟨ofAccounts accounts, ofAccounts closed⟩ := .instruction execution
  have hreach : NonceReach nonces minimumBalance ⟨ofAccounts accounts, ofAccounts accounts⟩
      ⟨ofAccounts accounts, ofAccounts accounts⟩ := .head hstep (.single .abort)
  exact (nonce_state_machine documented funded hreach).2 execution nonceKey

end Svm.System
