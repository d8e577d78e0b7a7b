import Svm.Proof.Privileges

/-!
# Duplicate accounts

The map of an instruction, as `prepare_top_level_instructions` and
`prepare_next_cpi_instruction` fill it, has the first position of each account. So an
account that an instruction lists again is found at its first position
(`duplicates_detected`).
-/

namespace Svm

open InvokeContext InstructionContext
open List hiding getElem?_eq_some_iff
open TransactionContext hiding push pop

variable {named : List UInt16} {t : UInt16} {ic : InstructionContext} {message : SVMMessage}

/-- The first position that names the account. -/
def IsFirst (named : List UInt16) (t : UInt16) (j : Nat) : Prop := named[j]? = some t ∧ t ∉ named.take j

/-- The instruction has the accounts that the list names, and finds their first positions. -/
structure DetectsDuplicates (named : List UInt16) (ic : InstructionContext) : Prop where
  accounts : indices ic.instructionAccounts = named
  index : ∀ t j, ic.getIndexOfAccountInInstruction t = .ok j ↔ IsFirst named t j.toNat
  missing : ∀ t, (∃ err, ic.getIndexOfAccountInInstruction t = .error err) ↔ t ∉ named
  first : ∀ i t, named[i.toNat]? = some t →
    (ic.isInstructionAccountDuplicate i = .ok none ↔ t ∉ named.take i.toNat)
  duplicate : ∀ i t, named[i.toNat]? = some t → ∀ j,
    ic.isInstructionAccountDuplicate i = .ok (some j) ↔ j.toNat < i.toNat ∧ IsFirst named t j.toNat

theorem idxOf_le_of_getElem? (h : named[i]? = some t) : named.idxOf t ≤ i := by
  have hmem : t ∈ named.take (i + 1) := by simp [take_add_one, h]
  exact Nat.le_of_lt_succ ((mem_take_iff_idxOf_lt (mem_of_getElem? h)).mp hmem)

theorem isFirst_iff : IsFirst named t j ↔ t ∈ named ∧ named.idxOf t = j := by
  constructor
  · rintro ⟨hj, hfirst⟩
    have hmem := mem_of_getElem? hj
    rw [mem_take_iff_idxOf_lt hmem] at hfirst
    exact ⟨hmem, le_antisymm (idxOf_le_of_getElem? hj) (Nat.not_lt.mp hfirst)⟩
  · rintro ⟨hmem, rfl⟩
    exact ⟨getElem?_idxOf hmem, by simp [mem_take_iff_idxOf_lt hmem]⟩

theorem Tracked.detectsDuplicates (h : Tracked ic) (hsmall : SmallIndices (ic.dedupMap, ic.instructionAccounts)) :
    DetectsDuplicates (indices ic.instructionAccounts) ic := by
  obtain ⟨hlength, hsmall⟩ := hsmall
  have hindex : ∀ t j, ic.getIndexOfAccountInInstruction t = .ok j ↔
      t ∈ indices ic.instructionAccounts ∧ (indices ic.instructionAccounts).idxOf t = j.toNat := by
    intro t j
    refine h.index_ok.trans (and_iff_right_of_imp ?_)
    rintro ⟨hmem, -⟩
    obtain ⟨account, haccount, rfl⟩ := mem_map.mp hmem
    rw [hlength]
    exact hsmall account haccount
  have hfound : ∀ t ∈ indices ic.instructionAccounts, ∃ j, ic.getIndexOfAccountInInstruction t = .ok j := by
    intro t hmem
    have hlt := idxOf_lt_length_of_mem hmem
    have hlen := h.length
    rw [length_indices] at hlt
    refine ⟨.ofNat ((indices ic.instructionAccounts).idxOf t), (hindex t _).mpr ⟨hmem, ?_⟩⟩
    rw [UInt16.toNat_ofNat', Nat.mod_eq_of_lt (by omega)]
  -- at a position of the list, the first one of its account is compared with it
  have hduplicate : ∀ i t, (indices ic.instructionAccounts)[i.toNat]? = some t →
      ic.isInstructionAccountDuplicate i = .ok none ∧ (indices ic.instructionAccounts).idxOf t = i.toNat ∨
      ∃ j, ic.isInstructionAccountDuplicate i = .ok (some j) ∧
        (indices ic.instructionAccounts).idxOf t = j.toNat ∧ j.toNat < i.toNat := by
    intro i t hi
    have hle := idxOf_le_of_getElem? hi
    obtain ⟨j, hj⟩ := hfound t (mem_of_getElem? hi)
    have hidx := ((hindex _ j).mp hj).2
    rw [indices, getElem?_map, Option.map_eq_some_iff] at hi
    obtain ⟨account, haccount, rfl⟩ := hi
    have hcompare : ic.isInstructionAccountDuplicate i = .ok (if j = i then none else some j) := by
      simp only [isInstructionAccountDuplicate, getIndexOfInstructionAccountInTransaction, instructionAccountAt, haccount,
        Except.map, bind, Except.bind, hj]
      rfl
    by_cases hji : j = i
    · exact .inl ⟨hcompare.trans (by rw [if_pos hji]), hji ▸ hidx⟩
    · have hne := mt UInt16.toNat_inj.mp hji
      exact .inr ⟨j, hcompare.trans (by rw [if_neg hji]), hidx, by omega⟩
  refine ⟨rfl, fun t j => (hindex t j).trans isFirst_iff.symm, fun t => ?_, fun i t hi => ?_, fun i t hi j => ?_⟩
  · constructor
    · rintro ⟨err, herr⟩ hmem
      obtain ⟨j, hj⟩ := hfound t hmem
      cases hj.symm.trans herr
    · intro hmem
      cases hget : ic.getIndexOfAccountInInstruction t with
      | error err => exact ⟨err, rfl⟩
      | ok j => exact absurd ((hindex t j).mp hget).1 hmem
  · rw [mem_take_iff_idxOf_lt (mem_of_getElem? hi)]
    rcases hduplicate i t hi with ⟨hnone, hidx⟩ | ⟨j, hj, hidx, hlt⟩
    · exact iff_of_true hnone (by omega)
    · exact iff_of_false (by simp [hj]) (by omega)
  · rw [isFirst_iff, and_iff_right (mem_of_getElem? hi)]
    rcases hduplicate i t hi with ⟨hnone, hidx⟩ | ⟨k, hk, hidx, hlt⟩
    · exact iff_of_false (by simp [hnone]) (by omega)
    · rw [hk, hidx, Except.ok.injEq, Option.some.injEq, UInt16.toNat_inj, iff_and_self]
      rintro rfl
      exact hlt

/-- The instruction that was configured in the reserved frame is the next one. -/
theorem PreparedCall.next (hc : PreparedCall ctx ctx' c caller) (ha : Aligned ctx)
    (hstack : ctx.instructionStack ≠ []) :
    ∃ ic, ctx'.getNextInstructionContext = .ok ic ∧ ic.programAccountIndexInTx = c.program ∧
      ic.instructionAccounts = c.accounts ∧ ic.dedupMap = c.table := by
  obtain ⟨hlen, frame, hframe, hprogram⟩ := hc.reserved ha
  obtain ⟨total, cpiScratchpad, f, rfl, -⟩ := hc
  have htrace := isEmpty_eq_false_iff.mpr (ne_nil_of_length_eq_add_one hlen)
  have hsame : (ctx.withCall c total cpiScratchpad f).instructionStack = ctx.instructionStack := rfl
  simp only [getNextInstructionContext, hsame, isEmpty_eq_false_iff.mpr hstack, htrace, hlen,
    Bool.false_eq_true, if_false, Nat.add_sub_cancel]
  rw [getInstructionContextAtIndexInTrace, hframe]
  refine ⟨_, rfl, hprogram, ?_, ?_⟩
  · simp [withCall]
  · simp [withCall, ← ha.maps]

/-- Duplicate detection is first-occurrence, for the instructions of a message and for
every call of a run. The instructions list fewer than `u16::MAX` accounts of at most 256. -/
theorem duplicates_detected {ext : CallExternals} {accounts : List (Pubkey × AccountSharedData)} {rent : Rent}
    {stackCapacity traceCapacity : Nat} (hn : message.instructions.length + 1 < 2 ^ 64)
    (haccounts : accounts.length ≤ 256)
    (htop : ∀ instruction ∈ message.instructions, instruction.accounts.length < 65535) :
    (∀ start, (prepareTopLevelInstructions message).run
        ⟨.new accounts rent stackCapacity traceCapacity message.instructions.length, []⟩ = .ok () start →
      ∀ i instruction, message.instructions[i]? = some instruction →
        ∃ ic, start.transactionContext.getInstructionContextAtIndexInTrace i = .ok ic ∧
          DetectsDuplicates (instruction.accounts.map fun i => .ofNat i.toNat) ic) ∧
    ∀ s, CallReachable ext message accounts rent stackCapacity traceCapacity s →
      ∀ instruction signers s', instruction.accounts.length < 65535 →
        (prepareNextCpiInstruction instruction signers).run s.invokeContext = .ok () s' →
        ∃ named ic, instruction.accounts.map (s.ctx.findIndexOfAccount ·.pubkey) = named.map some ∧
          s'.transactionContext.getNextInstructionContext = .ok ic ∧ DetectsDuplicates named ic := by
  refine ⟨fun start hstart i instruction hi => ?_, fun s hreach instruction signers s' hlen hrun => ?_⟩
  · obtain ⟨ic, hic, haccounts, hmap⟩ := (prepareTopLevelFrom_ok hstart).context hn hi
    refine ⟨ic, hic, ?_⟩
    have hlen := htop instruction (mem_of_getElem? hi)
    rw [← length_resolveTopLevel message] at hlen
    rw [← indices_resolveTopLevel message, ← haccounts]
    have hfrom : FromMessage message ic.dedupMap ic.instructionAccounts := by
      rw [haccounts, hmap]
      exact resolveTopLevel_ok (htop instruction (mem_of_getElem? hi)).le
    refine (hfrom.tracked ?_).detectsDuplicates ?_
    · rw [haccounts]
      exact hlen.le
    · rw [haccounts, hmap]
      exact smallIndices_resolveTopLevel message instruction
  · obtain ⟨program, callee, table, _, hresolve, hlast, hc⟩ := prepareNextCpiInstruction_ok hrun
    have ha := (hreach.inv hn (haccounts.trans (by decide)) fun i hi => (htop i hi).le).aligned
    obtain ⟨_, -, hcpi, -⟩ := resolveCpi_checked hlen.le hresolve
    obtain ⟨_, -, hresolved⟩ := resolveCpi_ok hlen.le hresolve
    obtain ⟨ic, hic, rfl, rfl, rfl⟩ := hc.next ha (ne_nil_of_mem (mem_of_getLast? hlast))
    refine ⟨indices ic.instructionAccounts, ic, ?_, hic, ?_⟩
    · rw [hcpi.named, indices, map_map]
      rfl
    · exact (hresolved.tracked hlen.le).detectsDuplicates (smallIndices_resolveCpi hresolve)

open LongCall in
/-- The program of a one-instruction message calls itself with an account twice. -/
theorem duplicates_detected_twice : ∃ s' ic,
    (prepareNextCpiInstruction (instruction (.replicate 2 ⟨key 2, false, false⟩)) []).run (entered false) = .ok () s' ∧
      s'.transactionContext.getNextInstructionContext = .ok ic ∧ DetectsDuplicates [1, 1] ic := by
  obtain ⟨named, ic, hnamed, hic, h⟩ := (duplicates_detected (by decide) (by decide) (by decide)).2 _
    (reachable_entered false) (instruction (.replicate 2 ⟨key 2, false, false⟩)) [] _ (by decide) rfl
  obtain rfl : named = [1, 1] := map_injective_iff.mpr (Option.some_injective _) hnamed.symm
  exact ⟨_, ic, rfl, hic, h⟩

end Svm
