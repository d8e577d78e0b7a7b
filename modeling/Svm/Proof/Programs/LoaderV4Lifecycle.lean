import Svm.Proof.Programs.LoaderV4

/-!
# Loader v4: lifecycle and cooldown

`Executes.change` and `Executes.history` carry what an instruction does to the
ledger. Over every sequence of transactions a program keeps to its lifecycle
(`loader_v4_lifecycle`), and two deployments of one address are a cooldown apart
(`loader_v4_cooldown`). What carries both is that a program without lamports, which
a transaction removes, is retracted and names the zero address as its authority
(`Funded`).
-/

namespace Svm.LoaderV4

open Machine Run Bytes Ledger BorrowedInstructionAccount Function InstructionContext

variable {action : Action LoaderV4Instruction} {w' : World History}

/-! ## One step of the ledger -/

section Ledger

variable {id key : Pubkey} {cooldown clock : UInt64} {signers : List Pubkey} {i : LoaderV4Instruction}
  {f f' : AccountFields} {w : World History}

theorem Executes.change (h : Executes id cooldown clock i signers w w') (key) :
    Change id cooldown clock signers (w.accounts key) i (w'.accounts key) := by
  obtain ⟨env, rent, ic, a, a', rfl, rfl, hclock, hinv, rfl, -⟩ := h
  obtain ⟨m, hl, hm⟩ := processInstruction_change hclock hinv.run
  exact hinv.each hl (R := fun _ f f' => Change _ _ clock (ic.signers a) f i f')
    (fun _ _ => .credit (UInt64.le_refl _)) (fun j _ => hm j) key

/-- The history grows by a deployment only, at the address that is deployed. -/
theorem Executes.history (h : Executes id cooldown clock i signers w w') : w'.history = w.history ∨
      ∃ key, w'.history = update w.history key (clock :: w.history key) ∧
        Deploys id clock signers (w.accounts key) (w'.accounts key) := by
  obtain ⟨env, rent, ic, a, a', rfl, rfl, hclock, hinv, rfl, hhistory⟩ := h
  by_cases hi : i = .Deploy
  · subst hi
    obtain ⟨ia, f, hb, hl, hf⟩ := processInstructionDeploy_ok hclock hinv.run
    have hkey : ic.getKeyOfInstructionAccount a 0 = .ok (a.view ia).key := by
      simp only [getKeyOfInstructionAccount, getIndexOfInstructionAccountInTransaction, instructionAccountAt,
        hb.entry, Except.map, Except.bind, bind, TransactionAccounts.accountKey_eq, if_pos hb.inRange]
    simp only [record, hkey] at hhistory
    refine .inr ⟨_, hhistory, ?_⟩
    rw [hinv.before.at hb.inRange, ← hl.key, hinv.after.at (hl.len ▸ hb.inRange), hl.fields, update_self]
    exact hf
  · refine .inl (hhistory.trans ?_)
    cases i <;> first | rfl | exact absurd rfl hi

theorem phase_of_length (ho : f.owner = id) (hlen : programDataOffset ≤ f.data.length) :
    phase id f = .initialized (statusOf f.data) := if_pos ⟨ho, hlen⟩

theorem phase_of_short (id) (hlen : f.data.length < programDataOffset) : phase id f = .uninitialized :=
  if_neg fun h => absurd h.2 (by omega)

theorem phase_congr (hdata : f'.data = f.data) (howner : f'.owner = f.owner) : phase id f' = phase id f := by
  rw [phase, phase, hdata, howner]

theorem Authorized.phase_eq (h : Authorized id signers f) : phase id f = .initialized (statusOf f.data) :=
  phase_of_length h.owner h.length

theorem Authorized.phase_data (h : Authorized id signers f) (hsame : SameProgram f.data data) :
    phase id { f with data := data } = .initialized (statusOf data) :=
  if_pos ⟨h.owner, hsame.length ▸ h.length⟩

theorem Authorized.signedBy (h : Authorized id signers f) (i : LoaderV4Instruction) :
    Action.SignedBy (.instruction i signers) (authorityOf f.data) := ⟨i, signers, rfl, h.signed⟩

/-- The account keeps its bytes and its owner. -/
theorem Lifecycle.same (hdata : f'.data = f.data) (howner : f'.owner = f.owner) : Lifecycle id action f f' where
  finalized _ := ⟨hdata, howner⟩
  moves := phase_congr hdata howner ▸ .stay _
  changed _ h := absurd (by rw [program, program, hdata]) h
  authority _ _ h := absurd (by rw [hdata]) h

/-- A program whose authority has signed and which is not finalized: what is left to
show of a change of its state. -/
theorem Authorized.lifecycle (ha : Authorized id signers f) (hs : statusOf f.data ≠ some .Finalized)
    (howner : f'.owner = f.owner) (hsame : SameProgram f.data f'.data)
    (hmoves : Phase.Moves (.initialized (statusOf f.data)) (.initialized (statusOf f'.data)))
    (hauthority : authorityOf f'.data ≠ authorityOf f.data →
      (i = .TransferAuthority ∧ authorityOf f'.data ∈ signers) ∨
      (i = .Finalize ∧ statusOf f.data = some .Deployed ∧ statusOf f'.data = some .Finalized)) :
    Lifecycle id (.instruction i signers) f f' := by
  have hphase' : phase id f' = .initialized (statusOf f'.data) :=
    phase_of_length (howner.trans ha.owner) (hsame.length ▸ ha.length)
  refine ⟨fun h => ?_, ?_, fun _ h => ?_, fun _ _ h => ?_⟩
  · rw [ha.phase_eq] at h
    exact absurd (Phase.initialized.inj h) hs
  · rw [ha.phase_eq, hphase']
    exact hmoves
  · exact absurd (by rw [program, program, hsame.length, hsame.program]) h
  · rw [ha.phase_eq, hphase']
    rcases hauthority h with ⟨rfl, hsigned⟩ | ⟨rfl, hd, hf⟩
    · exact .inl ⟨ha.signedBy _, ⟨_, _, rfl, hsigned⟩, signers, rfl⟩
    · exact .inr ⟨by rw [hd], by rw [hf], signers, rfl⟩

/-- The authority writes or resizes a retracted program, whose state stays. -/
theorem Authorized.lifecycle_bytes (ha : Authorized id signers f) (hs : statusOf f.data = some .Retracted)
    (howner : f'.owner = f.owner) (hlen : programDataOffset ≤ f'.data.length)
    (hstate : f'.data.take programDataOffset = f.data.take programDataOffset) :
    Lifecycle id (.instruction i signers) f f' := by
  obtain ⟨-, hauthority, hstatus⟩ := state_congr hstate
  have hphase' : phase id f' = phase id f := by
    rw [phase_of_length (howner.trans ha.owner) hlen, ha.phase_eq, hstatus]
  refine ⟨fun h => ?_, hphase' ▸ .stay _, fun _ _ => ?_, fun _ _ h => absurd hauthority h⟩
  · rw [ha.phase_eq, hs] at h
    cases h
  · exact .inl ⟨by rw [ha.phase_eq, hs], ha.signedBy i⟩

/-- An instruction keeps to the lifecycle. -/
theorem Change.lifecycle (h : Change id cooldown clock signers f i f') : Lifecycle id (.instruction i signers) f f' := by
  cases h with
  | credit h => exact .same rfl rfl
  | write ha hs hlen hstate => exact ha.lifecycle_bytes hs rfl (hlen ▸ ha.length) hstate
  | resize ha hs hlen hl hstate => exact ha.lifecycle_bytes hs rfl hlen hstate
  | close ha hs =>
    have hphase' (l : UInt64) : phase id { f with lamports := l, data := [] } = .uninitialized :=
      phase_of_short _ (by decide : [].length < programDataOffset)
    refine ⟨fun h => ?_, ?_, fun _ _ => .inl ⟨by rw [ha.phase_eq, hs], ha.signedBy i⟩, fun _ h => absurd (hphase' _) h⟩
    · rw [ha.phase_eq, hs] at h
      cases h
    · rw [ha.phase_eq, hs, hphase']
      exact .close
  | clear ho hlen ha =>
    have hphase := phase_of_short id hlen
    have hphase' (l : UInt64) : phase id { f with lamports := l, data := [] } = .uninitialized :=
      phase_of_short _ (by decide : [].length < programDataOffset)
    refine ⟨fun h => ?_, ?_, fun _ _ => ?_, fun h => absurd hphase h⟩
    · rw [hphase] at h
      cases h
    · rw [hphase, hphase']
      exact .stay _
    · exact .inr (.inl ⟨hphase, _, ⟨_, _, rfl, ha⟩, fun h => absurd (hphase' _) h⟩)
  | init ho hlen ha ho' hlen' hl hs =>
    have hphase := phase_of_short id hlen
    refine ⟨fun h => ?_, ?_, fun _ _ => ?_, fun h => absurd hphase h⟩
    · rw [hphase] at h
      cases h
    · rw [hphase, phase_of_length ho' hlen', hs]
      exact .init
    · exact .inr (.inl ⟨hphase, _, ⟨_, _, rfl, ha⟩, fun _ => rfl⟩)
  | deploy h =>
    refine h.authorized.lifecycle (by rw [h.retracted]; decide) (by rw [h.fields]) h.same ?_ ?_
    · rw [h.retracted, h.status]
      exact .deploy
    · exact fun hne => absurd h.authority hne
  | retract ha hs hcool hsame hauthority hs' =>
    refine ha.lifecycle (by rw [hs]; decide) rfl hsame ?_ fun hne => absurd hauthority hne
    rw [hs, hs']
    exact .retract
  | transfer ha hs hsame hsigned hslot hs' =>
    refine ha.lifecycle hs rfl hsame ?_ fun _ => .inl ⟨rfl, hsigned⟩
    rw [hs']
    exact .stay _
  | finalize ha hs hsame hslot hs' =>
    refine ha.lifecycle (by rw [hs]; decide) rfl hsame ?_ fun _ => .inr ⟨rfl, hs, hs'⟩
    rw [hs, hs']
    exact .finalize

/-! ### Other programs, and removal -/

/-- A zeroed account reads as a retracted program whose authority is the zero address. -/
theorem zeroed_state (h : ∀ byte ∈ data, byte = 0) :
    statusOf data = some .Retracted ∧ authorityOf data = SYSTEM_PROGRAM_ID := by
  constructor
  · rw [statusOf, ofLe_zeros fun byte hb => h byte (List.mem_of_mem_drop (List.mem_of_mem_take hb))]
    rfl
  · ext k hk
    have hbyte (n : Nat) : data.getD n 0 = 0 := by
      rw [List.getD_eq_getElem?_getD]
      cases hn : data[n]? with
      | none => rfl
      | some byte => exact h byte (List.mem_of_getElem? hn)
    have hdrop : (data.drop 8).getD k 0 = 0 := by
      rw [List.getD_eq_getElem?_getD, List.getElem?_drop, ← List.getD_eq_getElem?_getD, hbyte]
    simp only [authorityOf, toPubkey, SYSTEM_PROGRAM_ID, Vector.getElem_ofFn, Vector.getElem_replicate, hdrop]

theorem lifecycle_other {program : Pubkey} (hp : program ≠ id) (h : ProgramMay program f f') :
    Lifecycle id (.other program) f f' := by
  obtain ⟨-, hdata, howner, -⟩ | ⟨ho, hzero⟩ := h.cases hp
  · exact .same hdata howner
  · have hphase : phase id f = .uninitialized := if_neg fun h => ho h.1
    refine ⟨fun h => ?_, ?_, fun h => absurd h ho, fun h => absurd hphase h⟩
    · rw [hphase] at h
      cases h
    · rw [hphase, phase]
      split_ifs with h'
      · rw [(zeroed_state (hzero h'.1)).1]
        exact .init
      · exact .stay _

/-! ## Runs -/

/-- Only a retracted program with the zero authority can be without lamports. -/
def Funded (id : Pubkey) (f : AccountFields) : Prop :=
  phase id f = .uninitialized ∨ f.lamports ≠ 0 ∨
    (statusOf f.data = some .Retracted ∧ authorityOf f.data = SYSTEM_PROGRAM_ID)

theorem Authorized.funded (ha : Authorized id signers f) (hzero : SYSTEM_PROGRAM_ID ∉ signers) (hf : Funded id f) :
    f.lamports ≠ 0 := by
  rcases hf with h | h | ⟨-, h⟩
  · rw [ha.phase_eq] at h
    cases h
  · exact h
  · exact absurd (h ▸ ha.signed) hzero

theorem Change.funded (h : Change id cooldown clock signers f i f') (hzero : SYSTEM_PROGRAM_ID ∉ signers)
    (hf : Funded id f) : Funded id f' := by
  cases h with
  | credit h =>
    rcases hf with hf | hf | hf
    · exact .inl hf
    · exact .inr (.inl (lamports_ne_zero_of_le hf h))
    · exact .inr (.inr hf)
  | write ha hs hlen hstate => exact .inr (.inl (ha.funded hzero hf))
  | resize ha hs hlen hl hstate => exact .inr (.inl hl)
  | close ha hs | clear ho hlen ha => exact .inl (phase_of_short _ (by decide : [].length < programDataOffset))
  | init ho hlen ha ho' hlen' hl hs => exact .inr (.inl hl)
  | deploy h =>
    have hl : f'.lamports = f.lamports := by rw [h.fields]
    exact .inr (.inl (hl ▸ h.authorized.funded hzero hf))
  | retract ha hs hcool hsame hauthority hs' | transfer ha hs hsame hsigned hslot hs'
  | finalize ha hs hsame hslot hs' => exact .inr (.inl (ha.funded hzero hf))

theorem funded_other {program : Pubkey} (hp : program ≠ id) (h : ProgramMay program f f') (hf : Funded id f) :
    Funded id f' := by
  obtain ⟨-, hdata, howner, hle⟩ | ⟨-, hzero⟩ := h.cases hp
  · rcases hf with hf | hf | hf
    · exact .inl ((phase_congr hdata howner).trans hf)
    · exact .inr (.inl (lamports_ne_zero_of_le hf hle))
    · exact .inr (.inr (hdata ▸ hf))
  · by_cases ho : f'.owner = id
    · exact .inr (.inr (zeroed_state (hzero ho)))
    · exact .inl (if_neg fun h => ho h.1)

theorem phase_absent : phase id absent = .uninitialized := phase_of_short _ (by decide)

theorem Funded.collect (h : Funded id (w.accounts key)) : Funded id (w.collect.accounts key) := by
  simp only [World.collect]
  split
  · exact .inl phase_absent
  · exact h

/-- An account that is not without lamports, or one a transaction may remove. -/
theorem lifecycle_commit (h : Funded id (w.accounts key)) :
    Lifecycle id .commit (w.accounts key) (w.collect.accounts key) := by
  simp only [World.collect]
  split
  · rename_i hl
    have hphase : phase id (w.accounts key) = .initialized (some .Retracted) ∨
        phase id (w.accounts key) = .uninitialized := by
      rcases h with h | h | ⟨h, -⟩
      · exact .inr h
      · exact absurd hl h
      · rw [phase]
        split_ifs
        · exact .inl (by rw [h])
        · exact .inr rfl
    refine ⟨fun h => ?_, ?_, fun _ _ => .inr (.inr ⟨hphase, rfl, hl⟩), fun _ h => absurd phase_absent h⟩
    · rcases hphase with hp | hp <;> rw [hp] at h <;> cases h
    · rw [phase_absent]
      rcases hphase with hp | hp <;> rw [hp]
      · exact .close
      · exact .stay _
  · exact .same rfl rfl

variable {canSign : Pubkey → Prop} {s s' : State History}

/-- Every account is funded, whether the transaction is discarded or not. -/
structure AllFunded (id : Pubkey) (s : State History) : Prop where
  pending (key : Pubkey) : Funded id (s.pending.accounts key)
  committed (key : Pubkey) : Funded id (s.committed.accounts key)

theorem State.Settled.allFunded (h : s.Settled) : AllFunded id s := by
  have hcommitted (key : Pubkey) : Funded id (s.committed.accounts key) := by
    by_cases hl : (s.committed.accounts key).lamports = 0
    · rw [h.funded key hl]
      exact .inl phase_absent
    · exact .inr (.inl hl)
  exact ⟨fun key => h.pending ▸ hcommitted key, hcommitted⟩

theorem AllFunded.step (h : AllFunded id s) (hstep : Step (rules id cooldown canSign) action s s')
    (hzero : ¬ canSign SYSTEM_PROGRAM_ID) : AllFunded id s' := by
  cases hstep with
  | instruction hsign hexec =>
    exact ⟨fun key => (Executes.change hexec key).funded (fun hmem => hzero (hsign _ hmem)) (h.pending key), h.committed⟩
  | other hprogram hmay => exact ⟨fun key => funded_other hprogram (hmay key) (h.pending key), h.committed⟩
  | commit => exact ⟨fun key => (h.pending key).collect, fun key => (h.pending key).collect⟩
  | abort => exact ⟨h.committed, h.committed⟩
  | tick hle => exact ⟨h.pending, h.committed⟩

/-- Every step but the discarding of a transaction keeps to the lifecycle. -/
theorem Step.lifecycle (h : AllFunded id s) (hstep : Step (rules id cooldown canSign) action s s')
    (habort : action ≠ .abort) (key) :
    Lifecycle id action (s.pending.accounts key) (s'.pending.accounts key) := by
  cases hstep with
  | instruction hsign hexec => exact (Executes.change hexec key).lifecycle
  | other hprogram hmay => exact lifecycle_other hprogram (hmay key)
  | commit => exact lifecycle_commit (h.pending key)
  | abort => exact absurd rfl habort
  | tick hle => exact .same rfl rfl

/-- The committed and the pending account are the finalized program `f`. -/
structure FinalizedAs (key : Pubkey) (f : AccountFields) (s : State History) : Prop where
  committed : (s.committed.accounts key).data = f.data ∧ (s.committed.accounts key).owner = f.owner
  pending : (s.pending.accounts key).data = f.data ∧ (s.pending.accounts key).owner = f.owner

/-- A program that is finalized keeps its bytes and its owner. -/
theorem freezes_finalized : Freezes (rules id cooldown canSign) (AllFunded id)
    (fun f => phase id f = .initialized (some .Finalized)) fun f f' => f'.data = f.data ∧ f'.owner = f.owner := by
  rintro action s s' f key h hstep habort hf ⟨hdata, howner⟩
  obtain ⟨hd, ho⟩ := (Step.lifecycle h hstep habort key).finalized ((phase_congr hdata howner).trans hf)
  exact ⟨hd.trans hdata, ho.trans howner⟩

/-- Loader-v4 lifecycle. Over every sequence of transactions of loader instructions
with any accounts, interleaved with other programs within the access rules, where
nobody signs for the zero address: every step other than the discarding of a
transaction keeps to the rules of `Lifecycle` at every address, and a program that a
transaction has left finalized keeps its bytes and its owner from then on. -/
theorem loader_v4_lifecycle (id : Pubkey) (cooldown : UInt64) (canSign : Pubkey → Prop) (s₀ s : State History)
    (hzero : ¬ canSign SYSTEM_PROGRAM_ID) (hsettled : s₀.Settled) (hreach : Reach (rules id cooldown canSign) s₀ s) :
    (∀ action s', Step (rules id cooldown canSign) action s s' → action ≠ .abort →
      ∀ key, Lifecycle id action (s.pending.accounts key) (s'.pending.accounts key)) ∧
    ∀ key, phase id (s.committed.accounts key) = .initialized (some .Finalized) →
      ∀ s', Reach (rules id cooldown canSign) s s' →
        FinalizedAs key (s.committed.accounts key) s' := by
  have hsteps {action s s'} (h : AllFunded id s) (hstep : Step (rules id cooldown canSign) action s s') :=
    h.step hstep hzero
  have hfunded₀ : AllFunded id s₀ := State.Settled.allFunded hsettled
  refine ⟨fun action s' hstep habort => Step.lifecycle (hreach.induction hsteps hfunded₀) hstep habort,
    fun key hf s' hreach' => ?_⟩
  obtain ⟨hcommitted, hpending⟩ :=
    freezes_finalized.heldAs hsteps (fun _ => ⟨rfl, rfl⟩) hsettled hfunded₀ hreach hf hreach'
  exact ⟨hcommitted, hpending⟩

end Ledger

/-! ## A program of one byte

A loader with a cooldown of one slot and a program of one byte, on the ledger. -/

namespace OneByte

def loader : Pubkey := .replicate 32 9
def key : Pubkey := .replicate 32 1
def authority : Pubkey := .replicate 32 2
def nextVersion : Pubkey := .replicate 32 3

variable (clock : UInt64)

def env : Environment where
  id := loader
  bpfLoaderUpgradeableId := .replicate 32 4
  bpfLoaderDeprecatedId := .replicate 32 5
  bpfLoaderId := .replicate 32 6
  deploymentCooldownInSlots := 1
  getRent := .ok fun _ => 1
  getClock := .ok clock
  deployProgram := fun _ _ _ _ _ => .ok ()

def rent : Rent := ⟨fun _ _ => true⟩

/-- The program, its authority, another version of it and the loader. -/
def accounts (status : LoaderV4Status) : TransactionAccounts :=
  let account (owner : Pubkey) (data : List UInt8) : AccountSharedData := ⟨5, ⟨data, false, 0⟩, owner, false, 0⟩
  let program (status : LoaderV4Status) : List UInt8 :=
    toLe 8 0 ++ authority.toList ++ toLe 8 status.discriminant ++ [7]
  .new [(key, account loader (program status)), (authority, account SYSTEM_PROGRAM_ID []),
    (nextVersion, account loader (program .Retracted)), (loader, account SYSTEM_PROGRAM_ID [])]

def ic : InstructionContext :=
  ⟨0, 0, 65535, 3, [⟨0, false, true⟩, ⟨1, true, false⟩, ⟨2, false, false⟩], [0, 1, 2], []⟩

/-- Only the authority can sign. -/
def ledgerRules : Rules LoaderV4Instruction History := rules loader 1 (· = authority)

variable (i : LoaderV4Instruction) (signer : Pubkey)

def after (a : TransactionAccounts) : TransactionAccounts :=
  final (processInstruction (env clock) ic rent i) a

def state (committed : World History) (a : TransactionAccounts) (history : History) (clock : UInt64) : State History :=
  ⟨committed, ⟨ofAccounts a, history⟩, clock⟩

/-- The instruction succeeds, signed by one key. -/
abbrev Acts (a : TransactionAccounts) : Prop :=
  (result (processInstruction (env clock) ic rent i) a).isOk = true ∧ (a.len ≤ 2 ^ 16 ∧ a.accountKeys.Nodup) ∧
    a.accountKey 3 = some loader ∧ ((after clock i a).len = a.len ∧ (after clock i a).accountKeys = a.accountKeys) ∧
    ic.signers a = [signer] ∧ a.accountKey 0 = some key

/-- An instruction that succeeds is a step of the ledger. -/
theorem step (a) (h : Acts clock i signer a) (committed) (history : History) :
    Step (rules loader 1 (· = signer)) (.instruction i [signer]) (state committed a history clock)
      (state committed (after clock i a) (record clock ic a i history) clock) := by
  obtain ⟨hok, ⟨hlen, hnodup⟩, hprogram, ⟨hlen', hkeys⟩, hsigners, -⟩ := h
  exact .instruction (fun key hkey => List.mem_singleton.mp hkey)
    ⟨env clock, rent, ic, a, after clock i a, rfl, rfl, rfl,
      .of_run hlen hnodup hprogram (run_of_isOk hok) hlen' hkeys, hsigners.symm, rfl⟩

end OneByte

open OneByte in
/-- Finalizing a deployed program, signed by its authority alone, puts another address
in the place of the authority. -/
theorem finalize_replaces_authority :
    ∃ s s' : State History, s.Settled ∧ Step ledgerRules (.instruction .Finalize [authority]) s s' ∧
      phase OneByte.loader (s.pending.accounts key) = .initialized (some .Deployed) ∧
      authorityOf (s.pending.accounts key).data = authority ∧
      authorityOf (s'.pending.accounts key).data = nextVersion := by
  refine ⟨_, _, settled_ofAccounts (accounts .Deployed) (fun _ => []) 0 (by decide +kernel),
    step _ _ _ _ (by decide +kernel) _ _, ?_, ?_, ?_⟩
  · decide +kernel
  · decide +kernel
  · decide +kernel

open OneByte in
theorem loader_v4_lifecycle_finalize :
    let s : State History := ⟨⟨ofAccounts (accounts .Deployed), fun _ => []⟩, ⟨ofAccounts (accounts .Deployed), fun _ => []⟩, 0⟩
    let s' := state s.committed (after 0 .Finalize (accounts .Deployed)) (fun _ => []) 0
    Lifecycle loader (.instruction .Finalize [authority]) (s.pending.accounts key) (s'.pending.accounts key) := by
  intro s s'
  refine (loader_v4_lifecycle loader 1 (· = authority) s s (by decide) (settled_ofAccounts _ _ _ (by decide +kernel))
    .refl).1 (.instruction .Finalize [authority]) s' ?_ nofun key
  exact step _ _ _ _ (by decide +kernel) _ _

section Ledger

variable {id : Pubkey} {cooldown clock : UInt64} {signers : List Pubkey} {i : LoaderV4Instruction}
  {f f' : AccountFields} {canSign : Pubkey → Prop} {s s' : State History} {slot : UInt64}

/-! ## Cooldown -/

/-- A program that is deployed since `slot`, or has been finalized. -/
def Live (id : Pubkey) (slot : UInt64) (f : AccountFields) : Prop :=
  (phase id f = .initialized (some .Deployed) ∧ slotOf f.data = slot) ∨
    phase id f = .initialized (some .Finalized)

theorem Live.congr (h : Live id slot f) (hdata : f'.data = f.data) (howner : f'.owner = f.owner) :
    Live id slot f' := by
  rw [Live, phase_congr hdata howner, hdata]
  exact h

/-- A live program is no retracted one. -/
theorem Live.not_retracted (h : Live id slot f) : phase id f ≠ .initialized (some .Retracted) := by
  rcases h with ⟨h, -⟩ | h <;> rw [h] <;> decide

theorem Live.initialized (h : Live id slot f) : phase id f ≠ .uninitialized := by
  rcases h with ⟨h, -⟩ | h <;> rw [h] <;> nofun

theorem Live.lamports (h : Live id slot f) (hf : Funded id f) : f.lamports ≠ 0 := by
  rcases hf with hf | hf | ⟨hf, -⟩
  · exact absurd hf h.initialized
  · exact hf
  · refine absurd ?_ h.not_retracted
    have := h.initialized
    rw [phase] at this ⊢
    split_ifs at this ⊢ with hp
    · rw [hf]
    · exact absurd rfl this

/-- A live program stays live until it is retracted, when its cooldown is over. -/
theorem Change.live (h : Change id cooldown clock signers f i f') (hl : Live id slot f) :
    Live id slot f' ∨ U64.satAdd slot cooldown ≤ clock := by
  have hretracted (ha : Authorized id signers f) (hs : statusOf f.data = some .Retracted) : False :=
    hl.not_retracted (by rw [ha.phase_eq, hs])
  have hshort (hlen : f.data.length < programDataOffset) : False := hl.initialized (phase_of_short id hlen)
  cases h with
  | credit h => exact .inl (hl.congr rfl rfl)
  | write ha hs hlen hstate | resize ha hs hlen hl' hstate | close ha hs => exact (hretracted ha hs).elim
  | clear ho hlen ha | init ho hlen ha ho' hlen' hl' hs => exact (hshort hlen).elim
  | deploy h => exact (hretracted h.authorized h.retracted).elim
  | retract ha hs hcool hsame hauthority hs' =>
    rcases hl with ⟨-, hslot⟩ | hl
    · exact .inr (hslot ▸ hcool)
    · rw [ha.phase_eq, hs] at hl
      cases hl
  | @transfer data ha hs hsame hsigned hslot hs' =>
    have hphase : phase id { f with data := data } = phase id f := by
      rw [ha.phase_data hsame, ha.phase_eq, hs']
    left
    rw [Live, hphase, hslot]
    exact hl
  | finalize ha hs hsame hslot hs' =>
    refine .inl (.inr ?_)
    rw [ha.phase_data hsame, hs']

/-- The deployments of an address so far: each a cooldown after the one before, none
in the future, and the last one live unless its cooldown is over. -/
structure Cooled (id : Pubkey) (cooldown clock : UInt64) (slots : List UInt64) (f : AccountFields) : Prop where
  apart : slots.Pairwise fun later earlier => U64.satAdd earlier cooldown ≤ later
  past : ∀ slot ∈ slots, slot ≤ clock
  last : ∀ slot ∈ slots.head?, Live id slot f ∨ U64.satAdd slot cooldown ≤ clock

variable {slots : List UInt64}

variable (h : Cooled id cooldown clock slots f)

include h

theorem Cooled.mono (hle : clock ≤ clock') : Cooled id cooldown clock' slots f :=
  ⟨h.apart, fun slot hs => UInt64.le_trans (h.past slot hs) hle,
    fun slot hs => (h.last slot hs).imp_right fun hc => UInt64.le_trans hc hle⟩

/-- The account changes, and there is no deployment. -/
theorem Cooled.keep (hlive : ∀ slot, Live id slot f → Live id slot f' ∨ U64.satAdd slot cooldown ≤ clock) :
    Cooled id cooldown clock slots f' :=
  ⟨h.apart, h.past, fun slot hs => (h.last slot hs).elim (hlive slot) .inr⟩

/-- A deployment comes a cooldown after the last one. -/
theorem Cooled.deploy (hd : Deploys id clock signers f f') : Cooled id cooldown clock (clock :: slots) f' := by
  have hlast (slot : UInt64) (hs : slot ∈ slots.head?) : U64.satAdd slot cooldown ≤ clock := by
    refine (h.last slot hs).resolve_left fun hl => hl.not_retracted ?_
    rw [hd.authorized.phase_eq, hd.retracted]
  refine ⟨List.pairwise_cons.mpr ⟨fun slot hs => ?_, h.apart⟩, fun slot hs => ?_, fun slot hs => ?_⟩
  · cases slots with
    | nil => cases hs
    | cons last rest =>
      rcases List.mem_cons.mp hs with rfl | hs
      · exact hlast slot rfl
      · exact UInt64.le_trans ((List.pairwise_cons.mp h.apart).1 slot hs) (h.past last List.mem_cons_self)
  · rcases List.mem_cons.mp hs with rfl | hs
    · exact UInt64.le_refl _
    · exact h.past slot hs
  · obtain rfl : clock = slot := Option.some.inj hs
    refine .inl (.inl ⟨?_, hd.slot⟩)
    have howner : f'.owner = f.owner := by rw [hd.fields]
    rw [phase_of_length (howner.trans hd.authorized.owner) (hd.same.length ▸ hd.authorized.length), hd.status]

omit h

/-- The deployments of every address of a ledger are a cooldown apart. -/
def AllCooled (id : Pubkey) (cooldown clock : UInt64) (w : World History) : Prop :=
  ∀ key, Cooled id cooldown clock (w.history key) (w.accounts key)

theorem AllCooled.execute (h : AllCooled id cooldown clock w)
    (hexec : Executes id cooldown clock i signers w w') : AllCooled id cooldown clock w' := by
  intro key
  have hkeep := (h key).keep fun slot hl => (hexec.change key).live hl
  rcases hexec.history with hhistory | ⟨deployed, hhistory, hd⟩
  · rw [hhistory]
    exact hkeep
  · by_cases hkey : key = deployed
    · subst hkey
      rw [hhistory, update_self]
      exact (h key).deploy hd
    · rw [hhistory, update_of_ne hkey]
      exact hkeep

theorem AllCooled.collect (h : AllCooled id cooldown clock w)
    (hf : ∀ key, Funded id (w.accounts key)) : AllCooled id cooldown clock w.collect := by
  refine fun key => (h key).keep fun slot hl => .inl ?_
  rw [show w.collect.accounts key = w.accounts key from if_neg (hl.lamports (hf key))]
  exact hl

structure StateCooled (id : Pubkey) (cooldown : UInt64) (s : State History) : Prop where
  funded : AllFunded id s
  pending : AllCooled id cooldown s.clock s.pending
  committed : AllCooled id cooldown s.clock s.committed

theorem StateCooled.step (h : StateCooled id cooldown s) (hzero : ¬ canSign SYSTEM_PROGRAM_ID)
    (hstep : Step (rules id cooldown canSign) action s s') : StateCooled id cooldown s' := by
  refine ⟨h.funded.step hstep hzero, ?_, ?_⟩
  · cases hstep with
    | instruction hsign hexec => exact h.pending.execute hexec
    | other hprogram hmay =>
      refine fun key => (h.pending key).keep fun slot hl => ?_
      obtain ⟨-, hdata, howner, -⟩ | ⟨ho, -⟩ := (hmay key).cases hprogram
      · exact .inl (hl.congr hdata howner)
      · exact absurd (if_neg fun hp => ho hp.1) hl.initialized
    | commit => exact h.pending.collect h.funded.pending
    | abort => exact h.committed
    | tick hle => exact fun key => (h.pending key).mono hle
  · cases hstep with
    | instruction hsign hexec | other hprogram hmay => exact h.committed
    | commit => exact h.pending.collect h.funded.pending
    | abort => exact h.committed
    | tick hle => exact fun key => (h.committed key).mono hle

/-- Loader-v4 deployment cooldown. Over every sequence of transactions of loader
instructions, interleaved with other programs within the access rules, where the
clock never goes back and nobody signs for the zero address: of two deployments of
one address the later is at the slot of the earlier plus the cooldown, or after it,
where the sum saturates at the last slot there is. -/
theorem loader_v4_cooldown (id : Pubkey) (cooldown : UInt64) (canSign : Pubkey → Prop) (s₀ s : State History)
    (hzero : ¬ canSign SYSTEM_PROGRAM_ID) (hsettled : s₀.Settled) (hnone : ∀ key, s₀.committed.history key = [])
    (hreach : Reach (rules id cooldown canSign) s₀ s) (key : Pubkey) :
    (s.pending.history key).Pairwise (fun later earlier =>
      min (earlier.toNat + cooldown.toNat) (2 ^ 64 - 1) ≤ later.toNat) ∧
    (s.committed.history key).Pairwise (fun later earlier =>
      min (earlier.toNat + cooldown.toNat) (2 ^ 64 - 1) ≤ later.toNat) := by
  have hcooled : StateCooled id cooldown s := by
    refine hreach.induction (fun h hstep => StateCooled.step h hzero hstep) ?_
    have hempty : AllCooled id cooldown s₀.clock s₀.committed := by
      intro key
      rw [hnone key]
      exact ⟨.nil, nofun, nofun⟩
    exact ⟨State.Settled.allFunded hsettled, hsettled.pending ▸ hempty, hempty⟩
  have htoNat {later earlier : UInt64} (h : U64.satAdd earlier cooldown ≤ later) :
      min (earlier.toNat + cooldown.toNat) (2 ^ 64 - 1) ≤ later.toNat := by
    rw [← U64.toNat_satAdd]
    exact UInt64.le_iff_toNat_le.mp h
  exact ⟨(hcooled.pending key).apart.imp htoNat, (hcooled.committed key).apart.imp htoNat⟩

end Ledger

namespace OneByte

variable (first second : UInt64)

/-- The program is deployed, and retracted in a later slot. -/
def deployed : TransactionAccounts := after first .Deploy (accounts .Retracted)

def retracted : TransactionAccounts := after second .Retract (deployed first)

def settled : State History :=
  ⟨⟨ofAccounts (accounts .Retracted), fun _ => []⟩, ⟨ofAccounts (accounts .Retracted), fun _ => []⟩, first⟩

/-- The ledger after the program is deployed again. -/
def deployedTwice : State History :=
  state (settled first).committed (after second .Deploy (retracted first second))
    (update (fun _ => []) key [second, first]) second

theorem record_deploy (h : Acts slot .Deploy signer a) (history : History) :
    record clock ic a .Deploy history = update history key (clock :: history key) := by
  have hkey : ic.getKeyOfInstructionAccount a 0 = .ok key := by
    have hindex : ic.getIndexOfInstructionAccountInTransaction 0 = .ok 0 := rfl
    simp [getKeyOfInstructionAccount, hindex, bind, Except.bind, h.2.2.2.2.2]
  simp [record, hkey]

variable {first second}

theorem reach_deployedTwice (hle : first ≤ second) (hdeploys : Acts first .Deploy authority (accounts .Retracted))
    (hretracts : Acts second .Retract authority (deployed first))
    (hagains : Acts second .Deploy authority (retracted first second)) :
    Reach ledgerRules (settled first) (deployedTwice first second) := by
  have hdeploy := step first .Deploy _ _ hdeploys (settled first).committed (fun _ => [])
  have hretract := step second .Retract _ _ hretracts (settled first).committed (update (fun _ => []) key [first])
  have hagain := step second .Deploy _ _ hagains (settled first).committed (update (fun _ => []) key [first])
  rw [record_deploy hdeploys] at hdeploy
  rw [record_deploy hagains, update_idem, update_self] at hagain
  exact (((Relation.ReflTransGen.single ⟨_, hdeploy⟩).tail ⟨_, .tick hle⟩).tail ⟨_, hretract⟩).tail ⟨_, hagain⟩

end OneByte

open OneByte in
/-- At the last slot there is a program can be deployed, retracted and deployed again:
the two deployments are no slot apart. -/
theorem deployments_at_last_slot :
    let s := deployedTwice U64.max U64.max
    (settled U64.max).Settled ∧ (∀ key, (settled U64.max).committed.history key = []) ∧
      Reach ledgerRules (settled U64.max) s ∧
      ¬ (s.pending.history key).Pairwise fun later earlier => earlier.toNat + 1 ≤ later.toNat := by
  refine ⟨settled_ofAccounts _ _ _ (by decide +kernel), fun _ => rfl, ?_, ?_⟩
  · exact reach_deployedTwice (by decide) (by decide +kernel) (by decide +kernel) (by decide +kernel)
  · decide

open OneByte in
/-- A program is deployed in slot 3, and again in slot 7. -/
theorem loader_v4_cooldown_deployedTwice :
    ((deployedTwice 3 7).pending.history key) = [7, 3] ∧ [7, 3].Pairwise fun later earlier : UInt64 =>
      min (earlier.toNat + (1 : UInt64).toNat) (2 ^ 64 - 1) ≤ later.toNat := by
  have hhistory : (deployedTwice 3 7).pending.history key = [7, 3] := by simp [deployedTwice, state]
  have h := (loader_v4_cooldown loader 1 (· = authority) (settled 3) (deployedTwice 3 7) (by decide)
    (settled_ofAccounts _ _ _ (by decide +kernel)) (fun _ => rfl)
    (reach_deployedTwice (by decide) (by decide +kernel) (by decide +kernel) (by decide +kernel)) key).1
  rw [hhistory] at h
  exact ⟨hhistory, h⟩

/-! ## Signatures for the zero address -/

namespace OneByte

/-- An account of `n` zeroed bytes and no lamports, the system program and the loader. -/
def zeroed (owner : Pubkey) (n : Nat) : TransactionAccounts :=
  .new ((key, ⟨0, ⟨.replicate n 0, false, 0⟩, owner, false, 0⟩) :: [SYSTEM_PROGRAM_ID, nextVersion, loader].map
    fun key => (key, ⟨5, ⟨[], false, 0⟩, SYSTEM_PROGRAM_ID, false, 0⟩))

/-- The account is handed to the loader, which deploys it. -/
theorem reach_zeroed (w : World History)
    (howner : ∀ k ∈ (zeroed loader 49).accountKeys, (w.accounts k).owner = SYSTEM_PROGRAM_ID)
    (hothers : ∀ k ∉ (zeroed loader 49).accountKeys, w.accounts k = absent) :
    Reach (rules loader 1 (· = SYSTEM_PROGRAM_ID)) ⟨w, w, 0⟩
      (state w (after 0 .Deploy (zeroed loader 49)) (update w.history key (0 :: w.history key)) 0) := by
  have hacts : Acts 0 .Deploy SYSTEM_PROGRAM_ID (zeroed loader 49) := by decide +kernel
  have hdeploy := step 0 .Deploy _ _ hacts w w.history
  rw [record_deploy hacts] at hdeploy
  refine .tail (.single ⟨.other SYSTEM_PROGRAM_ID, .other (by decide) fun k => ?_⟩) ⟨_, hdeploy⟩
  by_cases hk : k ∈ (zeroed loader 49).accountKeys
  · have hzero : ∀ k ∈ (zeroed loader 49).accountKeys, ∀ byte ∈ (ofAccounts (zeroed loader 49) k).data, byte = 0 := by
      decide +kernel
    exact ⟨fun hne => absurd (howner k hk) hne, fun _ => hzero k hk⟩
  · rw [hothers k hk, ofAccounts_of_notMem hk]
    exact .refl ..

end OneByte

open OneByte in
/-- With a signature for the zero address, which is the authority of a zeroed account, a
program is deployed that is gone at the end of the transaction, and then deployed again
in the same slot. -/
theorem zero_address_signs :
    let r := rules loader 1 (· = SYSTEM_PROGRAM_ID)
    ∃ s₀ s s' s'' : State History, s₀.Settled ∧ (∀ key, s₀.committed.history key = []) ∧ Reach r s₀ s ∧
      Step r .commit s s' ∧ ¬ Lifecycle loader .commit (s.pending.accounts key) (s'.pending.accounts key) ∧
      Reach r s' s'' ∧ s''.clock = 0 ∧ s''.pending.history key = [0, 0] := by
  refine ⟨⟨⟨ofAccounts (zeroed SYSTEM_PROGRAM_ID 0), fun _ => []⟩, _, 0⟩, _, _, _,
    settled_ofAccounts _ _ _ (by decide +kernel), fun _ => rfl,
    reach_zeroed _ (by decide +kernel) fun k hk => ofAccounts_of_notMem hk, .commit, fun h => ?_,
    reach_zeroed _ (by decide +kernel) fun k hk => ?_, rfl, by simp [state, World.collect]⟩
  · have hmoves := h.moves
    rw [show phase loader _ = .initialized (some .Deployed) by decide +kernel,
      show phase loader _ = .uninitialized by decide +kernel] at hmoves
    cases hmoves
  · have hkeys : (after 0 .Deploy (zeroed loader 49)).accountKeys = (zeroed loader 49).accountKeys := by decide +kernel
    exact if_pos (congrArg AccountFields.lamports (ofAccounts_of_notMem (hkeys ▸ hk)))

end Svm.LoaderV4
