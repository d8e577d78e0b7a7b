import Svm.Proof.Ledger
import Svm.Spec.Programs.LoaderV4

/-!
# Loader v4: what an instruction does

The state of a program is read back from the bytes it was written to, and each
instruction is followed through its checks and writes. `processInstruction_change`
says once what an instruction that succeeds has done to each account.
-/

namespace Svm.LoaderV4

open Machine Run Bytes Ledger BorrowedInstructionAccount TransactionAccounts InstructionContext Function

variable {state : LoaderV4State}

/-! ## The state in the bytes -/

section State

variable {data : List UInt8}

/-- The state is in the first bytes. -/
theorem state_congr (h : data'.take programDataOffset = data.take programDataOffset) :
    slotOf data' = slotOf data ∧ authorityOf data' = authorityOf data ∧ statusOf data' = statusOf data := by
  have hfield (start len : Nat) (hle : start + len ≤ programDataOffset) :
      (data'.drop start).take len = (data.drop start).take len := by
    rw [List.take_drop, List.take_drop, ← min_eq_left hle, ← List.take_take, h, List.take_take]
  refine ⟨?_, ?_, ?_⟩
  · rw [slotOf, slotOf, ← List.drop_zero (l := data'), hfield 0 8 (by decide), List.drop_zero]
  · rw [authorityOf, authorityOf, ← toPubkey_take, hfield 8 32 (by decide), toPubkey_take]
  · rw [statusOf, statusOf, hfield 40 8 (by decide)]

theorem slotOf_overwrite_slot (slot) : slotOf (overwrite data 0 (toLe 8 slot.toNat)) = slot := by
  have := take_drop_overwrite_self (toLe 8 slot.toNat) (Nat.zero_le data.length)
  rw [length_toLe, List.drop_zero] at this
  rw [slotOf, this, ofLe_toLe_uint64, UInt64.ofNat_toNat]

variable (h : programDataOffset ≤ data.length)
include h

theorem authorityOf_overwrite_authority (key) : authorityOf (overwrite data 8 key.toList) = key := by
  simp only [programDataOffset] at h
  have := take_drop_overwrite_self key.toList (show 8 ≤ data.length by omega)
  rw [Vector.length_toList] at this
  rw [authorityOf, ← toPubkey_take, this, toPubkey_toList]

theorem statusOf_overwrite_status (status) :
    statusOf (overwrite data 40 (toLe 8 status.discriminant)) = some status := by
  simp only [programDataOffset] at h
  have := take_drop_overwrite_self (toLe 8 status.discriminant) (show 40 ≤ data.length by omega)
  rw [length_toLe] at this
  rw [statusOf, this]
  cases status <;> rfl

theorem slotOf_overwrite (hs : 8 ≤ start) (hle : start ≤ programDataOffset) :
    slotOf (overwrite data start part) = slotOf data := by
  rw [slotOf, slotOf, take_overwrite hs (hle.trans h)]

theorem authorityOf_overwrite (hle : start ≤ programDataOffset) (hs : start + part.length ≤ 8 ∨ 40 ≤ start) :
    authorityOf (overwrite data start part) = authorityOf data := by
  rcases hs with hs | hs
  · rw [authorityOf, authorityOf, drop_overwrite hs (hle.trans h)]
  · rw [authorityOf, authorityOf, ← toPubkey_take, field_overwrite_before (by omega) (hle.trans h), toPubkey_take]

theorem statusOf_overwrite (hs : start + part.length ≤ 40) :
    statusOf (overwrite data start part) = statusOf data := by
  have hstart : start ≤ data.length := by
    simp only [programDataOffset] at h
    omega
  rw [statusOf, statusOf, drop_overwrite hs hstart]

/-- A write within the state. -/
theorem sameProgram_overwrite (hs : start + part.length ≤ programDataOffset) :
    SameProgram data (overwrite data start part) where
  length := length_overwrite (hs.trans h)
  program := drop_overwrite hs (by omega)

end State

/-! ## Checks -/

section Instructions

variable {env : Environment} {ic : InstructionContext} {rent : Rent} {a a' : TransactionAccounts}
  {program : BorrowedInstructionAccount} {authority : Pubkey} {clock required : UInt64} {newSize : UInt32}

theorem getState_ok (h : getState data = .ok state) :
    programDataOffset ≤ data.length ∧ state = ⟨slotOf data, authorityOf data, statusOf data⟩ := by
  unfold getState at h
  split_ifs at h with hlen
  cases h
  exact ⟨hlen, rfl⟩

/-- What the checks of a program account establish. -/
structure Checked (env : Environment) (ic : InstructionContext) (f : AccountFields) (a : TransactionAccounts)
    (state : LoaderV4State) : Prop where
  authorized : Authorized env.id (ic.signers a) f
  notFinalized : statusOf f.data ≠ some .Finalized
  state : state = ⟨slotOf f.data, authorityOf f.data, statusOf f.data⟩

theorem checkProgramAccount_ok (hkey : ic.getKeyOfInstructionAccount a 1 = .ok authority)
    (h : checkProgramAccount env ic program authority a = .ok state) :
    Checked env ic (program.fields a) a state := by
  obtain ⟨_, howner, h⟩ := except_inv h
  obtain ⟨state', hstate, h⟩ := except_inv h
  obtain ⟨_, -, h⟩ := except_inv h
  obtain ⟨isSigner, hsigner, h⟩ := except_inv h
  obtain ⟨_, hsigned, h⟩ := except_inv h
  obtain ⟨_, hauthority, h⟩ := except_inv h
  obtain ⟨_, hfinal, h⟩ := except_inv h
  rw [failIf_ok] at howner hsigned hauthority hfinal
  cases h
  obtain ⟨hlen, rfl⟩ := getState_ok hstate
  obtain rfl : authorityOf (program.fields a).data = authority := not_not.mp hauthority
  obtain rfl : isSigner = true := by simpa using hsigned
  exact ⟨⟨not_not.mp howner, hlen, signed_of_key hkey hsigner⟩, hfinal, rfl⟩

/-- The reads an instruction on a program begins with. -/
theorem checked_bind {k : Pubkey → LoaderV4State → AccountsM α} (hrun : (do
      let authorityAddress ← ofExcept (ic.getKeyOfInstructionAccount (← get) 1)
      let state ← ofExcept (checkProgramAccount env ic program authorityAddress (← get))
      k authorityAddress state : AccountsM α).run a = .ok r a') :
    ∃ authority state, Checked env ic (program.fields a) a state ∧ (k authority state).run a = .ok r a' := by
  obtain ⟨authority, hkey, h⟩ := read_inv hrun
  obtain ⟨state, hstate, h⟩ := read_inv h
  exact ⟨authority, state, checkProgramAccount_ok hkey hstate, h⟩

/-! ## Instructions -/

section Writes

variable (hi : program.getIndexInTransaction.toNat < a.len) (hl : Leaves a a1 (program.updated a f))

include hi hl

theorem getDataMut_step (h : program.getDataMut.run a1 = .ok () a') : Leaves a a' (program.updated a f) := by
  obtain ⟨-, hl'⟩ := getDataMut_ok (hl.len ▸ hi) h
  exact hl.fields ▸ hl.trans hl'

/-- A write into the account behind others. -/
theorem writeState_ok (h : (writeState program start field).run a1 = .ok () a') :
    programDataOffset ≤ f.data.length ∧
      Leaves a a' (program.updated a { f with data := overwrite f.data start field }) := by
  have hf : program.fields a1 = f := by rw [fields, hl.fields, updated, update_self]
  rw [writeState, run_get_bind] at h
  simp only [run_ite, EStateM.run_throw] at h
  split_ifs at h with hlen
  cases h
  have hl' := hl.trans (modifyView_overwrite (hl.len ▸ hi) start field)
  rw [hf, updated, hl.fields, update_idem] at hl'
  exact ⟨hf ▸ hlen, hl'⟩

end Writes

theorem leaves_self : Leaves a a (program.updated a (program.fields a)) := by
  rw [updated_self]
  exact .refl a

/-- The changes of an instruction to all its accounts. -/
def Changes (env : Environment) (clock : UInt64) (ic : InstructionContext) (a : TransactionAccounts)
    (i : LoaderV4Instruction) (m : UInt16 → AccountFields) : Prop :=
  ∀ j, Change env.id env.deploymentCooldownInSlots clock (ic.signers a) (a.fieldsAt j) i (m j)

theorem Changes.update (h : Change env.id env.deploymentCooldownInSlots clock (ic.signers a) (a.fieldsAt j) i f) :
    Changes env clock ic a i (update a.fieldsAt j f) := by
  intro k
  by_cases hk : k = j
  · subst hk
    rw [update_self]
    exact h
  · rw [update_of_ne hk]
    exact .credit (UInt64.le_refl _)

/-- A write behind the state, by the authority of a retracted program. -/
theorem Checked.write (hc : Checked env ic f a state) (hs : state.status = some .Retracted)
    (hlen : start + programDataOffset + part.length ≤ f.data.length) (clock) (i) :
    Change env.id env.deploymentCooldownInSlots clock (ic.signers a) f i
      { f with data := overwrite f.data (start + programDataOffset) part } := by
  refine .write hc.authorized ?_ (length_overwrite hlen) (take_overwrite (by omega) (by omega))
  rw [hc.state] at hs
  exact hs

theorem processInstructionWrite_ok
    (h : (processInstructionWrite env ic rent offset bytes).run a = .ok () a') (clock)
    (i) : ∃ m, Leaves a a' m ∧ Changes env clock ic a i m := by
  obtain ⟨ia, a1, hb, h, hleaves⟩ := withBorrowed_ok h
  obtain ⟨_, state, hc, h⟩ := checked_bind h
  obtain ⟨hs, h⟩ := throwIf_inv h
  obtain ⟨-, hlen, hw⟩ := writeRange_ok hb.borrowed_inRange h
  refine ⟨_, hleaves _ hw, ?_⟩
  simp only [updated, fields, fieldsAt_takeBorrow] at hlen hc ⊢
  exact .update (by simpa using hc.write (not_not.mp hs) hlen clock i)

theorem processInstructionCopy_ok
    (h : (processInstructionCopy env ic rent destinationOffset sourceOffset length).run a = .ok () a')
    (clock) (i) : ∃ m, Leaves a a' m ∧ Changes env clock ic a i m := by
  obtain ⟨ia, a1, hb, h, hleaves⟩ := withBorrowed_ok h
  obtain ⟨authority, hkey, h⟩ := read_inv h
  obtain ⟨source, a2, hb', h, hleaves'⟩ := withBorrowed_ok h
  obtain ⟨state, hstate, h⟩ := read_inv h
  obtain ⟨hs, h⟩ := throwIf_inv h
  obtain ⟨offset, -, h⟩ := read_inv h
  rw [run_get_bind] at h
  split at h
  · have hc := checkProgramAccount_ok (by simpa using hkey) hstate
    obtain ⟨-, hlen, hw⟩ := writeRange_ok (by simpa using hb.inRange) h
    refine ⟨_, hleaves _ (hleaves' _ hw), ?_⟩
    simp only [updated, fields, fieldsAt_takeBorrow] at hlen hc ⊢
    exact .update (by simpa using hc.write (not_not.mp hs) hlen clock i)
  · cases h

/-- Lamports have moved, and the account at `ip` has at least `required` left; every
other account has as many as before or more. -/
structure Balanced (ip : UInt16) (required : UInt64) (m m' : UInt16 → AccountFields) : Prop where
  program : ∃ l, required ≤ l ∧ m' ip = { m ip with lamports := l }
  others : ∀ j, j ≠ ip → ∃ l, (m j).lamports ≤ l ∧ m' j = { m j with lamports := l }

theorem Balanced.refl (h : required ≤ (m ip).lamports) : Balanced ip required m m :=
  ⟨⟨_, h, rfl⟩, fun _ _ => ⟨_, UInt64.le_refl _, rfl⟩⟩

variable (hi : program.getIndexInTransaction.toNat < a.len)

include hi

theorem payRecipient_ok (hborrowed : (a.slot program.getIndexInTransaction).borrowCounter ≠ 0)
    (hle : required ≤ (program.fields a).lamports)
    (hrun : (payRecipient ic rent program newSize required).run a = .ok () a') :
    ∃ m, Leaves a a' m ∧ Balanced program.getIndexInTransaction required a.fieldsAt m := by
  obtain ⟨r, a1, h1, h⟩ := bind_inv hrun
  rw [run_attempt] at h1
  injection h1 with hr ha1
  cases r with
  | error e =>
    rw [final_tryBorrowInstructionAccount_error hr] at ha1
    subst ha1
    obtain ⟨-, ha'⟩ := run_throwIf_ok.mp h
    exact ⟨_, ha' ▸ .refl _, .refl hle⟩
  | ok recipient =>
    have hok := result_ok.mp hr
    rw [ha1] at hok
    obtain ⟨ia, hia, rfl, hri, hfree, rfl⟩ := tryBorrowInstructionAccount_ok hok
    obtain ⟨a2, hbody, rfl⟩ := dropping_ok h
    obtain ⟨_, -, hbody⟩ := ofExcept_inv hbody
    obtain ⟨-, hbody⟩ := throwIf_inv hbody
    rw [run_get_bind] at hbody
    obtain ⟨_, a3, h3, hbody⟩ := bind_inv hbody
    -- the program is borrowed already, so the recipient is another account
    have hne : ia ≠ program.getIndexInTransaction := fun e => hborrowed (e ▸ hfree)
    obtain ⟨hsub', hsub⟩ := checkedSubLamports_ok (by simpa using hi) h3
    obtain ⟨l, hl, hadd⟩ := checkedAddLamports_ok (by simpa [hsub.len] using hri) hbody
    refine ⟨_, (hsub.trans hadd).releaseBorrowMut hri hfree, ?_⟩
    simp only [updated, fields, hsub.fields, fieldsAt_takeBorrow,
      borrowed_getIndexInTransaction, update_of_ne hne] at hl hsub' ⊢
    refine ⟨⟨_, ?_, by rw [update_of_ne hne.symm, update_self]⟩, fun j hj => ?_⟩
    · have hget : program.getLamports (a.takeBorrow ia) =
          (a.fieldsAt program.getIndexInTransaction).lamports :=
        congrArg (fun m => (m program.getIndexInTransaction).lamports) (a.fieldsAt_takeBorrow _)
      rw [hget] at hsub' ⊢
      have hle : required.toNat ≤ (a.fieldsAt program.getIndexInTransaction).lamports.toNat :=
        UInt64.le_iff_toNat_le.mp hle
      rw [UInt64.le_iff_toNat_le, UInt64.toNat_sub_of_le _ _ hsub', U64.toNat_satSub]
      omega
    · by_cases hjr : j = ia
      · subst hjr
        refine ⟨l, ?_, by rw [update_self]⟩
        rw [UInt64.le_iff_toNat_le]
        omega
      · exact ⟨_, UInt64.le_refl _, by rw [update_of_ne hjr, update_of_ne hj]⟩

theorem balanceProgram_ok (hborrowed : (a.slot program.getIndexInTransaction).borrowCounter ≠ 0)
    (hrun : (balanceProgram ic rent program newSize required).run a = .ok () a') :
    ∃ m, Leaves a a' m ∧ Balanced program.getIndexInTransaction required a.fieldsAt m := by
  rw [balanceProgram, run_get_bind] at hrun
  simp only [run_ite, EStateM.run_throw] at hrun
  split_ifs at hrun with hless hgreater
  · exact payRecipient_ok hi hborrowed (UInt64.not_lt.mp hless) hrun
  · cases hrun
    exact ⟨_, .refl a, .refl (UInt64.not_lt.mp hless)⟩

/-- The state of an account that is initialized. -/
theorem initializeProgram_ok (hrun : (initializeProgram program authority).run a = .ok () a') :
    ∃ data, Leaves a a' (program.updated a { program.fields a with executable := true, data := data }) ∧
      programDataOffset ≤ data.length ∧ authorityOf data = authority ∧ statusOf data = some .Retracted := by
  obtain ⟨_, a1, h1, h⟩ := bind_inv hrun
  have hl1 := setExecutable_ok hi h1
  obtain ⟨_, a2, h2, h⟩ := bind_inv h
  have hl2 := getDataMut_step hi hl1 h2
  obtain ⟨_, a3, h3, h⟩ := bind_inv h
  obtain ⟨hlen, hl3⟩ := writeState_ok hi hl2 h3
  obtain ⟨_, a4, h4, h⟩ := bind_inv h
  obtain ⟨hlen3, hl4⟩ := writeState_ok hi hl3 h4
  obtain ⟨hlen4, hl5⟩ := writeState_ok hi hl4 h
  refine ⟨_, hl5, ?_, authorityOf_overwrite_authority hlen4 _, ?_⟩
  · rw [length_overwrite (by simp only [programDataOffset, Vector.length_toList] at hlen4 ⊢; omega)]
    exact hlen4
  · rw [statusOf_overwrite hlen4 (by simp), statusOf_overwrite_status hlen3]

/-- The program account is balanced, then resized. -/
theorem resizeProgram_ok (hrun : (resizeProgram program newSize isInitialization authority).run a = .ok () a') :
    ∃ f, Leaves a a' (program.updated a f) ∧ f.owner = (program.fields a).owner ∧
      f.lamports = (program.fields a).lamports ∧
      ((newSize = 0 ∧ f = { program.fields a with data := [] }) ∨ (newSize ≠ 0 ∧ isInitialization = false ∧
        f = { program.fields a with data := resized (program.fields a).data (programDataOffset + newSize.toNat) }) ∨
       (newSize ≠ 0 ∧ isInitialization = true ∧ programDataOffset ≤ f.data.length ∧
        authorityOf f.data = authority ∧ statusOf f.data = some .Retracted)) := by
  rw [resizeProgram] at hrun
  split_ifs at hrun with hzero hinit
  · obtain ⟨-, hl⟩ := setDataLength_ok hi hrun
    exact ⟨_, hl, rfl, rfl, .inl ⟨hzero, by simp [resized]⟩⟩
  · obtain ⟨_, a1, h1, h⟩ := bind_inv hrun
    obtain ⟨-, hl1⟩ := setDataLength_ok hi h1
    obtain ⟨data, hl2, hlen, hauthority, hstatus⟩ := initializeProgram_ok (by rw [hl1.len]; exact hi) h
    have hl := hl1.trans hl2
    simp only [updated, fields, hl1.fields, update_self, update_idem] at hl
    exact ⟨_, hl, rfl, rfl, .inr (.inr ⟨hzero, hinit, hlen, hauthority, hstatus⟩)⟩
  · obtain ⟨_, a1, h1, h⟩ := bind_inv hrun
    obtain ⟨-, hl1⟩ := setDataLength_ok hi h1
    cases h
    exact ⟨_, hl1, rfl, rfl, .inr (.inl ⟨hzero, by simpa using hinit, rfl⟩)⟩

omit hi

/-- What the checks of `set_program_length` establish. -/
theorem checkSetProgramLength_ok (hkey : ic.getKeyOfInstructionAccount a 1 = .ok authority)
    (h : checkSetProgramLength env ic program authority a = .ok isInitialization) :
    (isInitialization = true ∧ (program.fields a).data.length < programDataOffset ∧
      (program.fields a).owner = env.id ∧ authority ∈ ic.signers a) ∨
    (isInitialization = false ∧ Authorized env.id (ic.signers a) (program.fields a) ∧
      statusOf (program.fields a).data = some .Retracted) := by
  rw [checkSetProgramLength] at h
  split_ifs at h with hlen
  · obtain ⟨_, howner, h⟩ := except_inv h
    obtain ⟨_, -, h⟩ := except_inv h
    obtain ⟨isSigner, hsigner, h⟩ := except_inv h
    obtain ⟨_, hsigned, h⟩ := except_inv h
    rw [failIf_ok] at howner hsigned
    cases h
    obtain rfl : isSigner = true := by simpa using hsigned
    exact .inl ⟨rfl, hlen, not_not.mp howner, signed_of_key hkey hsigner⟩
  · obtain ⟨state, hstate, h⟩ := except_inv h
    obtain ⟨_, hs, h⟩ := except_inv h
    rw [failIf_ok] at hs
    cases h
    have hc := checkProgramAccount_ok hkey hstate
    rw [hc.state] at hs
    exact .inr ⟨rfl, hc.authorized, not_not.mp hs⟩

theorem requiredLamports_pos (h : requiredLamports env newSize = .ok required) (hnew : newSize ≠ 0) :
    1 ≤ required := by
  rw [requiredLamports, if_neg hnew] at h
  obtain ⟨minimumBalance, -, h⟩ := except_inv h
  cases h
  show (1 : UInt64) ≤ if _ then _ else _
  split
  · exact le_refl 1
  · rename_i hle
    exact (UInt64.lt_or_le 1 _).elim UInt64.le_of_lt fun h => absurd h hle

theorem processInstructionSetProgramLength_ok
    (hrun : (processInstructionSetProgramLength env ic rent newSize).run a = .ok () a') (clock)
    (i) : ∃ m, Leaves a a' m ∧ Changes env clock ic a i m := by
  obtain ⟨ia, a1, hb, h, hleaves⟩ := withBorrowed_ok hrun
  obtain ⟨authority, hkey, h⟩ := read_inv h
  obtain ⟨isInitialization, hcheck, h⟩ := read_inv h
  obtain ⟨required, hrequired, h⟩ := ofExcept_inv h
  obtain ⟨_, a2, h2, h⟩ := bind_inv h
  have hborrowed := borrowCounter_takeBorrow hb.inRange
  obtain ⟨m, hl2, hbal⟩ := balanceProgram_ok hb.borrowed_inRange hborrowed h2
  obtain ⟨f, hl3, howner, hlamports, hf⟩ := resizeProgram_ok (by rw [hl2.len]; exact hb.borrowed_inRange) h
  refine ⟨_, hleaves _ (hl2.trans hl3), fun j => ?_⟩
  have hchecked := checkSetProgramLength_ok hkey hcheck
  simp only [updated, fields, hl2.fields, fieldsAt_takeBorrow, signers_takeBorrow,
    borrowed_getIndexInTransaction] at hchecked hbal howner hlamports hf ⊢
  by_cases hj : j = ia
  · subst hj
    obtain ⟨l, hle, hm⟩ := hbal.program
    rw [update_self]
    rw [hm] at howner hlamports hf
    have hpos (hnew : newSize ≠ 0) : l ≠ 0 := by
      have hone := UInt64.le_trans (requiredLamports_pos hrequired hnew) hle
      rintro rfl
      exact absurd hone (by decide)
    rcases hchecked with ⟨rfl, hlen, hid, hsigned⟩ | ⟨rfl, hauthorized, hstatus⟩
    · rcases hf with ⟨-, rfl⟩ | ⟨-, h, -⟩ | ⟨hnew, -, hlen', rfl, hstatus⟩
      · exact .clear hid hlen hsigned
      · cases h
      · exact .init hid hlen hsigned (howner.trans hid) hlen' (hlamports ▸ hpos hnew) hstatus
    · rcases hf with ⟨-, rfl⟩ | ⟨hnew, -, rfl⟩ | ⟨-, h, -⟩
      · exact .close hauthorized hstatus
      · refine .resize hauthorized hstatus ?_ (hpos hnew) ?_
        · rw [length_resized]
          omega
        · exact take_resized (by omega) hauthorized.length
      · cases h
  · rw [update_of_ne hj]
    obtain ⟨l, hle, hm⟩ := hbal.others j hj
    rw [hm]
    exact .credit hle

theorem SameProgram.trans (h : SameProgram data data') (h' : SameProgram data' data'') : SameProgram data data'' :=
  ⟨h'.length.trans h.length, h'.program.trans h.program⟩

theorem processInstructionDeploy_ok (hclock : env.getClock = .ok clock)
    (hrun : (processInstructionDeploy env ic rent).run a = .ok () a') :
    ∃ ia f, Borrows ic a 0 ia ∧ Leaves a a' (update a.fieldsAt ia f) ∧
      Deploys env.id clock (ic.signers a) (a.fieldsAt ia) f := by
  obtain ⟨ia, a1, hb, h, hleaves⟩ := withBorrowed_ok hrun
  obtain ⟨_, state, hc, h⟩ := checked_bind h
  obtain ⟨slot, hslot, h⟩ := ofExcept_inv h
  obtain rfl : slot = clock := Except.ok.inj (hslot.symm.trans hclock)
  obtain ⟨-, h⟩ := throwIf_inv h
  obtain ⟨hs, h⟩ := throwIf_inv h
  obtain ⟨_, -, h⟩ := read_inv h
  obtain ⟨_, a2, h2, h⟩ := bind_inv h
  have hl2 := getDataMut_step hb.borrowed_inRange leaves_self h2
  obtain ⟨_, a3, h3, h⟩ := bind_inv h
  obtain ⟨hlen2, hl3⟩ := writeState_ok hb.borrowed_inRange hl2 h3
  obtain ⟨hlen3, hl⟩ := writeState_ok hb.borrowed_inRange hl3 h
  simp only [updated, fields, fieldsAt_takeBorrow, borrowed_getIndexInTransaction] at hl hlen2 hlen3 hc
  refine ⟨ia, _, hb, hleaves _ hl, by simpa using hc.authorized, ?_, rfl, ?_, ?_, ?_, ?_⟩
  · rw [hc.state] at hs
    exact not_not.mp hs
  · exact (sameProgram_overwrite hlen2 (by simp [programDataOffset])).trans
      (sameProgram_overwrite hlen3 (by simp [programDataOffset]))
  · rw [slotOf_overwrite hlen3 (by decide) (by decide), slotOf_overwrite_slot]
  · rw [authorityOf_overwrite hlen3 (by decide) (.inr (by decide)),
      authorityOf_overwrite hlen2 (by decide) (.inl (by simp))]
  · exact statusOf_overwrite_status hlen3 _

theorem processInstructionRetract_ok (hclock : env.getClock = .ok clock)
    (hrun : (processInstructionRetract env ic rent).run a = .ok () a') :
    ∃ m, Leaves a a' m ∧ Changes env clock ic a .Retract m := by
  obtain ⟨ia, a1, hb, h, hleaves⟩ := withBorrowed_ok hrun
  obtain ⟨_, state, hc, h⟩ := checked_bind h
  obtain ⟨slot, hslot, h⟩ := ofExcept_inv h
  obtain rfl : slot = clock := Except.ok.inj (hslot.symm.trans hclock)
  obtain ⟨hcool, h⟩ := throwIf_inv h
  obtain ⟨hs, h⟩ := throwIf_inv h
  obtain ⟨_, a2, h2, h⟩ := bind_inv h
  have hl2 := getDataMut_step hb.borrowed_inRange leaves_self h2
  obtain ⟨hlen, hl⟩ := writeState_ok hb.borrowed_inRange hl2 h
  rw [hc.state] at hs hcool
  simp only [updated, fields, fieldsAt_takeBorrow] at hl hlen hc hs hcool
  refine ⟨_, hleaves _ hl, .update (.retract (by simpa using hc.authorized) (not_not.mp hs) ?_ ?_ ?_ ?_)⟩
  · exact UInt64.not_lt.mp hcool
  · exact sameProgram_overwrite hlen (by simp [programDataOffset])
  · exact authorityOf_overwrite hlen (by decide) (.inr (by decide))
  · exact statusOf_overwrite_status hlen _

theorem processInstructionTransferAuthority_ok
    (hrun : (processInstructionTransferAuthority env ic rent).run a = .ok () a') (clock) :
    ∃ m, Leaves a a' m ∧ Changes env clock ic a .TransferAuthority m := by
  obtain ⟨ia, a1, hb, h, hleaves⟩ := withBorrowed_ok hrun
  obtain ⟨authority, hkey, h⟩ := read_inv h
  obtain ⟨newAuthority, hnew, h⟩ := read_inv h
  obtain ⟨state, hstate, h⟩ := read_inv h
  obtain ⟨isSigner, hsigner, h⟩ := ofExcept_inv h
  obtain ⟨hsigned, h⟩ := throwIf_inv h
  obtain ⟨-, h⟩ := throwIf_inv h
  obtain ⟨_, a2, h2, h⟩ := bind_inv h
  have hl2 := getDataMut_step hb.borrowed_inRange leaves_self h2
  obtain ⟨hlen, hl⟩ := writeState_ok hb.borrowed_inRange hl2 h
  obtain rfl : isSigner = true := by simpa using hsigned
  have hc := checkProgramAccount_ok hkey hstate
  simp only [updated, fields, fieldsAt_takeBorrow] at hl hlen hc
  refine ⟨_, hleaves _ hl, .update (.transfer (by simpa using hc.authorized) hc.notFinalized ?_ ?_ ?_ ?_)⟩
  · exact sameProgram_overwrite hlen (by simp [programDataOffset])
  · rw [authorityOf_overwrite_authority hlen]
    exact signed_of_key (by simpa using hnew) hsigner
  · exact slotOf_overwrite hlen (by decide) (by decide)
  · exact statusOf_overwrite hlen (by simp)

theorem checkFinalize_ok (hrun : (checkFinalize env ic rent).run a = .ok authority a') :
    ∃ ia, Borrows ic a 0 ia ∧ Leaves a a' a.fieldsAt ∧ Authorized env.id (ic.signers a) (a.fieldsAt ia) ∧
      statusOf (a.fieldsAt ia).data = some .Deployed := by
  obtain ⟨ia, a1, hb, h, hleaves⟩ := withBorrowed_ok hrun
  obtain ⟨_, state, hc, h⟩ := checked_bind h
  obtain ⟨hs, h⟩ := throwIf_inv h
  cases h
  rw [hc.state] at hs
  simp only [fields, fieldsAt_takeBorrow] at hs hc
  refine ⟨ia, hb, hleaves _ ?_, by simpa using hc.authorized, not_not.mp hs⟩
  rw [← a.fieldsAt_takeBorrow ia]
  exact .refl _

theorem checkNextVersion_ok (hrun : (checkNextVersion env ic rent authority).run a = .ok next a') :
    Leaves a a' a.fieldsAt ∧ ∃ j, j.toNat < a.len ∧ next = (a.view j).key ∧
      statusOf (a.fieldsAt j).data ≠ some .Finalized := by
  obtain ⟨ia, a1, hb, h, hleaves⟩ := withBorrowed_ok hrun
  obtain ⟨-, h⟩ := throwIf_inv h
  obtain ⟨_, hstate, h⟩ := ofExcept_inv h
  obtain ⟨-, h⟩ := throwIf_inv h
  obtain ⟨hs, h⟩ := throwIf_inv h
  cases h
  obtain ⟨-, rfl⟩ := getState_ok hstate
  refine ⟨hleaves _ ?_, ia, hb.inRange, ?_, ?_⟩
  · rw [← a.fieldsAt_takeBorrow ia]
    exact .refl _
  · rw [getKey, account, view_takeBorrow]
    rfl
  · rw [← a.fieldsAt_takeBorrow ia]
    exact hs

/-- The program that is finalized, and its next version. -/
theorem processInstructionFinalize_ok (hrun : (processInstructionFinalize env ic rent).run a = .ok () a')
    (clock) : ∃ ia f, ia.toNat < a.len ∧ Leaves a a' (update a.fieldsAt ia f) ∧
      Change env.id env.deploymentCooldownInSlots clock (ic.signers a) (a.fieldsAt ia) .Finalize f ∧
      ∃ j, j.toNat < a.len ∧ authorityOf f.data = (a.view j).key ∧
        statusOf (a.fieldsAt j).data ≠ some .Finalized := by
  obtain ⟨authority, a1, h1, h⟩ := bind_inv hrun
  obtain ⟨ia, hb1, hl1, hauthorized, hstatus⟩ := checkFinalize_ok h1
  obtain ⟨next, a2, h2, h⟩ := bind_inv h
  obtain ⟨hl2, j, hj, rfl, hnext⟩ := checkNextVersion_ok h2
  obtain ⟨ia', a3, hb, h, hleaves⟩ := withBorrowed_ok h
  -- the entry is the one that was checked
  obtain rfl : ia' = ia := Option.some.inj (hb.entry.symm.trans hb1.entry)
  obtain ⟨_, a4, h4, h⟩ := bind_inv h
  have hl4 := getDataMut_step hb.borrowed_inRange leaves_self h4
  obtain ⟨_, a5, h5, h⟩ := bind_inv h
  obtain ⟨hlen5, hl5⟩ := writeState_ok hb.borrowed_inRange hl4 h5
  obtain ⟨hlen6, hl6⟩ := writeState_ok hb.borrowed_inRange hl5 h
  have hl := hl1.trans (hl2.trans (hleaves _ hl6))
  simp only [updated, fields, hl1.fields, hl2.fields, fieldsAt_takeBorrow,
    borrowed_getIndexInTransaction] at hl hlen5 hlen6
  refine ⟨ia', _, hb1.inRange, hl, .finalize hauthorized hstatus ?_ ?_ ?_, j, hl1.len ▸ hj, ?_, hl1.fields ▸ hnext⟩
  · exact (sameProgram_overwrite hlen5 (by simp [programDataOffset])).trans
      (sameProgram_overwrite hlen6 (by simp [programDataOffset]))
  · rw [slotOf_overwrite hlen6 (by decide) (by decide), slotOf_overwrite hlen5 (by decide) (by decide)]
  · exact statusOf_overwrite_status hlen6 _
  · rw [authorityOf_overwrite hlen6 (by decide) (.inr (by decide)), authorityOf_overwrite_authority hlen5, hl1.key]

/-- What an instruction that succeeds has done to each of its accounts. -/
theorem processInstruction_change (hclock : env.getClock = .ok clock)
    (hrun : (processInstruction env ic rent i).run a = .ok () a') :
    ∃ m, Leaves a a' m ∧ Changes env clock ic a i m := by
  cases i with
  | Write offset bytes => exact processInstructionWrite_ok hrun clock _
  | Copy destinationOffset sourceOffset length => exact processInstructionCopy_ok hrun clock _
  | SetProgramLength newSize => exact processInstructionSetProgramLength_ok hrun clock _
  | Deploy =>
    obtain ⟨ia, f, -, hl, hf⟩ := processInstructionDeploy_ok hclock hrun
    exact ⟨_, hl, .update (.deploy hf)⟩
  | Retract => exact processInstructionRetract_ok hclock hrun
  | TransferAuthority => exact processInstructionTransferAuthority_ok hrun clock
  | Finalize =>
    obtain ⟨ia, f, -, hl, hf, -⟩ := processInstructionFinalize_ok hrun clock
    exact ⟨_, hl, .update hf⟩

end Instructions

end Svm.LoaderV4
