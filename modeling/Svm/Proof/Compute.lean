import Svm.Framework.Observe
import Svm.Spec.Compute

/-!
# Compute units are reported once

What a program takes off the meter is what the readings of the meter around its
invocation differ by (`Metered.units`), whatever it does in between and however deep
the instructions it has processed nest (`Program.metered`). So an instruction reports
the units of its charges on every exit (`processInstruction_reported`), and a message
accumulates those of its instructions (`compute_units_reported_once`).
-/

namespace Svm

open Machine Run InvokeContext UInt64

/-! ## Charges -/

namespace Charges

theorem append (h : Charges m cs m') (h' : Charges m' cs' m'') : Charges m (cs ++ cs') m'' := by
  induction h with
  | nil => exact h'
  | cons le _ ih => exact .cons le (ih h')

theorem units (h : Charges m cs m') : m'.toNat + unitsOf cs = m.toNat := by
  induction h with
  | nil => rfl
  | @cons charge charges meter le _ ih =>
    have hle : charge.after.toNat ≤ charge.before.toNat := le_iff_toNat_le.mp le
    simp only [unitsOf, List.map_cons, List.sum_cons] at ih ⊢
    omega

end Charges

theorem unitsOf_append (cs cs') : unitsOf (cs ++ cs') = unitsOf cs + unitsOf cs' := by
  simp [unitsOf]

theorem toNat_satSub64 (a b) : (satSub64 a b).toNat = a.toNat - b.toNat := by
  have := a.toNat_lt
  rw [satSub64, toNat_ofNat']
  omega

namespace Metered

theorem refl (s) : Metered s [] s := ⟨by simp, .nil _⟩

theorem trans (h : Metered s cs s') (h' : Metered s' cs' s'') : Metered s (cs ++ cs') s'' where
  log := by rw [h'.log, h.log, List.append_assoc]
  meter := h.meter.append h'.meter

theorem units (h : Metered s cs s') : (satSub64 s.computeMeter s'.computeMeter).toNat = unitsOf cs := by
  have := h.meter.units
  rw [toNat_satSub64]
  omega

theorem consume (amount) (s) :
    Metered s [⟨s.computeMeter, satSub64 s.computeMeter amount⟩] (s.consume amount) where
  log := rfl
  meter := by
    have hle : satSub64 s.computeMeter amount ≤ s.computeMeter := by
      rw [le_iff_toNat_le, toNat_satSub64]
      exact Nat.sub_le _ _
    exact @Charges.cons ⟨_, _⟩ _ _ hle (.nil _)

/-- The context may be replaced; the meter is not in it. -/
theorem withContext (s) (c) : Metered s [] { s with toInvokeContext := c } :=
  ⟨by simp, .nil _⟩

end Metered

/-- The meter was written by some charges and by nothing else. -/
def IsMetered (s s' : MeteredContext) : Prop := ∃ cs, Metered s cs s'

theorem isMetered_compositional : Compositional (ε := ε) fun _ => Along IsMetered := by
  refine Along.compositional (fun s => ⟨_, .refl s⟩) ?_
  rintro s s' s'' ⟨cs, h⟩ ⟨cs', h'⟩
  exact ⟨_, h.trans h'⟩

/-! ## Instructions -/

theorem unmetered_metered (x : InvokeM α) (s) : Metered s [] (final (unmetered x) s) := by
  rw [unmetered, final_zoom]
  exact .withContext s _

theorem final_onContext (x : MeteredM InstructionError α) (s) :
    final (onContext x) s = { s with context := final x s.context } := final_zoom _ _ x s

theorem run_onContext_attempt (x : MeteredM InstructionError α) (s) :
    (onContext (attempt x)).run s = .ok (result x s.context) { s with context := final x s.context } := by
  have h := run_attempt x s.context
  simp only [EStateM.run] at h
  simp [onContext, zoom, EStateM.run, h]

namespace MeteredContext

variable {ext : Externals} {ids : LoaderIds} {find : Pubkey → Option BuiltinFunction}

theorem enterProgram_find (h : (enterProgram ids find).run c = .ok (builtinId, function, programId) c') :
    find builtinId = some function := by
  obtain ⟨ctx, h, -⟩ := run_zoom_ok.mp h
  obtain ⟨_, _, -, h⟩ := bind_inv h
  obtain ⟨_, _, -, h⟩ := bind_inv h
  obtain ⟨id, _, -, h⟩ := bind_inv h
  cases hfind : find id with
  | none =>
    rw [hfind] at h
    cases h
  | some f =>
    rw [hfind] at h
    obtain ⟨_, _, -, h⟩ := bind_inv h
    obtain ⟨_, _, -, h⟩ := bind_inv h
    cases h
    exact hfind

variable (hfind : ∀ {id : Pubkey} {function : BuiltinFunction}, find id = some function → Along IsMetered function)
include hfind

/-- The readings of the meter around the program account for what it was charged, and
the exits before the first reading charge nothing. -/
theorem processExecutableChain_reported (s) (hs : s.computeUnitsConsumed = 0) :
    Reported s.context (final (processExecutableChain ids find) s).computeUnitsConsumed
      (final (processExecutableChain ids find) s).context := by
  have hentered := unmetered_metered (enterProgram ids find) s.context
  have hfinal := final_onContext (unmetered (enterProgram ids find)) s
  rw [processExecutableChain, final_bind]
  cases h : (onContext (unmetered (enterProgram ids find))).run s with
  | error e s1 =>
    have hs1 : s1 = { s with context := final (unmetered (enterProgram ids find)) s.context } := by
      rw [← hfinal, final, h]
    subst hs1
    exact ⟨[], hentered, by rw [hs]; rfl⟩
  | ok entered s1 =>
    have hs1 : s1 = { s with context := final (unmetered (enterProgram ids find)) s.context } := by
      rw [← hfinal, final, h]
    obtain ⟨c, hc, -⟩ := run_zoom_ok.mp h
    obtain ⟨c', hc', -⟩ := run_zoom_ok.mp hc
    obtain ⟨cs, hcs⟩ := hfind (enterProgram_find hc') s1.context
    simp only [final_get_bind]
    rw [final_bind, run_onContext_attempt]
    simp only [final_get_bind, final_modify_bind, final_throwIf_ofExcept]
    subst hs1
    refine ⟨[] ++ cs, hentered.trans (by rwa [final_mapError]), ?_⟩
    rw [final_mapError]
    exact hcs.units

/-- Whatever way an instruction ends, it reports what it was charged. -/
theorem processInstruction_reported (s) :
    Reported s.context (final (processInstruction ext ids find) s).computeUnitsConsumed
      (final (processInstruction ext ids find) s).context := by
  have hpushed := unmetered_metered (push ext) s.context
  have hfinal := final_onContext (unmetered (push ext)) { s with computeUnitsConsumed := 0 }
  rw [processInstruction, final_modify_bind, final_bind]
  cases h : (onContext (unmetered (push ext))).run { s with computeUnitsConsumed := 0 } with
  | error e s1 =>
    rw [final, h] at hfinal
    subst hfinal
    exact ⟨[], hpushed, rfl⟩
  | ok u s1 =>
    rw [final, h] at hfinal
    subst hfinal
    obtain ⟨cs, hcs, hunits⟩ := processExecutableChain_reported hfind
      ⟨final (unmetered (push ext)) s.context, 0⟩ rfl
    simp only [final_attempt_bind, final_ofExcept, final_onContext]
    have hpopped := unmetered_metered pop
      (final (processExecutableChain ids find) ⟨final (unmetered (push ext)) s.context, 0⟩).context
    refine ⟨[] ++ cs ++ [], (hpushed.trans hcs).trans hpopped, ?_⟩
    rw [List.append_nil]
    exact hunits

end MeteredContext

/-! ## Programs -/

/-- Every program is metered by its charges, those of the instructions it has processed
among them. -/
theorem Program.metered (ext) (ids) (program : Program) :
    Along IsMetered (program.run ext ids) := by
  induction program with
  | done result => exact isMetered_compositional.ofExcept result
  | work apply next ih =>
    intro s
    obtain ⟨cs, hcs⟩ := ih s.toInvokeContext { s with toInvokeContext := apply s.toInvokeContext }
    exact ⟨[] ++ cs, (Metered.withContext s _).trans hcs⟩
  | getRemaining next ih => exact fun s => ih s.getRemaining s
  | consume amount next ih =>
    intro s
    obtain ⟨cs, hcs⟩ := ih (s.consume amount)
    exact ⟨_, (Metered.consume amount s).trans hcs⟩
  | consumeChecked amount next ih =>
    intro s
    have hfinal : final (MeteredContext.consumeChecked amount) s = s.consume amount := by
      rw [MeteredContext.consumeChecked, final_get_bind, final_modify_bind, throwIf, final_ofExcept]
    obtain ⟨cs, hcs⟩ := ih (result (MeteredContext.consumeChecked amount) s) (s.consume amount)
    rw [← hfinal] at hcs
    exact ⟨_, (hfinal ▸ Metered.consume amount s).trans hcs⟩
  | processInstruction cached callees next ih1 ih2 =>
    intro s
    have hfind {id : Pubkey} {function : BuiltinFunction}
        (h : (if cached id then some ((callees id).run ext ids) else none) = some function) :
        Along IsMetered function := by
      split at h
      · cases h
        exact ih1 id
      · cases h
    obtain ⟨cs, hcs, -⟩ := @MeteredContext.processInstruction_reported ext ids _ hfind ⟨s, 0⟩
    obtain ⟨cs', hcs'⟩ := ih2 _ _ (final (MeteredContext.processInstruction ext ids fun id =>
      if cached id then some ((callees id).run ext ids) else none) ⟨s, 0⟩).context
    exact ⟨_, hcs.trans hcs'⟩

theorem Program.entrypoints_metered {ext : Externals}
    {id : Pubkey} (h : entrypoints ext ids programs id = some function) : Along IsMetered function := by
  obtain ⟨program, -, rfl⟩ := Option.map_eq_some_iff.mp h
  exact program.metered ext ids

/-! ## Messages -/

namespace Accumulates

theorem refl (s) : Accumulates s [] s := ⟨.refl _, rfl⟩

theorem trans (h : Accumulates s parts s') (h' : Accumulates s' parts' s'') : Accumulates s (parts ++ parts') s'' where
  metered := List.flatten_append ▸ h.metered.trans h'.metered
  accumulated := by
    rw [h'.accumulated, h.accumulated, List.map_append, List.sum_append, add_assoc]

theorem unitsOf_flatten (parts : List (List Charge)) : unitsOf parts.flatten = (parts.map unitsOf).sum := by
  induction parts with
  | nil => rfl
  | cons part parts ih => rw [List.flatten_cons, unitsOf_append, ih, List.map_cons, List.sum_cons]

/-- What leaves the meter is accumulated. -/
theorem room (h : Accumulates s parts s') : s'.accumulatedConsumedUnits.toNat + s'.context.computeMeter.toNat =
      s.accumulatedConsumedUnits.toNat + s.context.computeMeter.toNat := by
  have hunits := h.metered.meter.units
  rw [unitsOf_flatten] at hunits
  have haccumulated := h.accumulated
  omega

end Accumulates

namespace MessageProcessor

variable (ext : Externals) (ids : LoaderIds) (precompiles : Precompiles) (message : SVMTransaction)

/-- A precompile is not charged, and any other top level instruction reports its charges. -/
theorem processTopLevel_reported (programs) (programId)
    (instruction) (s) : Reported s
      (final (processTopLevel ext ids precompiles message (Program.entrypoints ext ids programs) programId
        instruction) ⟨s, 0⟩).computeUnitsConsumed
      (final (processTopLevel ext ids precompiles message (Program.entrypoints ext ids programs) programId
        instruction) ⟨s, 0⟩).context := by
  rw [processTopLevel]
  split
  · rw [final_onContext]
    refine ⟨[], ?_, rfl⟩
    have hpushed := unmetered_metered (push ext) s
    rw [MeteredContext.processPrecompile, final_bind]
    cases h : (unmetered (push ext)).run s with
    | error e s1 => rwa [final, h] at hpushed
    | ok u s1 =>
      rw [final, h] at hpushed
      simp only [final_attempt_bind, final_ofExcept]
      exact hpushed.trans (unmetered_metered pop s1)
  · exact MeteredContext.processInstruction_reported Program.entrypoints_metered ⟨s, 0⟩

/-- One pass of the loop adds the report of its instruction, without saturation. -/
theorem processNext_accumulates (index : Nat) (process) (s)
    (hreported : Reported s.context (final process ⟨s.context, 0⟩).computeUnitsConsumed
      (final process ⟨s.context, 0⟩).context)
    (hroom : s.accumulatedConsumedUnits.toNat + s.context.computeMeter.toNat < 2 ^ 64) :
    ∃ charges, Accumulates s [charges] (final (processNext index process) s) := by
  obtain ⟨cs, hcs, hunits⟩ := hreported
  have hfinal : final (processNext index process) s =
      ⟨(final process ⟨s.context, 0⟩).context, .ofNat (satAdd 64 s.accumulatedConsumedUnits.toNat
        (final process ⟨s.context, 0⟩).computeUnitsConsumed.toNat)⟩ := by
    simp only [final, processNext, EStateM.run]
    cases result process ⟨s.context, 0⟩ <;> rfl
  have hle := hcs.meter.units
  rw [hfinal]
  refine ⟨cs, by simpa using hcs, ?_⟩
  simp only [List.map_cons, List.map_nil, List.sum_singleton]
  rw [satAdd_eq (by omega), toNat_ofNat']
  omega

/-- The loop accumulates the charges of every instruction it gets to. -/
theorem processFrom_accumulates (programs : Nat → Pubkey → Option Program)
    (instructions) (index : Nat) (s)
    (hroom : s.accumulatedConsumedUnits.toNat + s.context.computeMeter.toNat < 2 ^ 64) :
    ∃ parts, parts.length ≤ instructions.length ∧ Accumulates s parts
      (final (processFrom ext ids precompiles message (fun i => Program.entrypoints ext ids (programs i)) index
        instructions) s) := by
  induction instructions generalizing index s with
  | nil => exact ⟨[], le_rfl, .refl s⟩
  | cons entry rest ih =>
    obtain ⟨programId, instruction⟩ := entry
    obtain ⟨charges, hnext⟩ := processNext_accumulates index _ s
      (processTopLevel_reported ext ids precompiles message (programs index) programId instruction s.context) hroom
    rw [processFrom, final_bind]
    rw [final] at hnext
    split
    · rename_i _ s1 h
      rw [h] at hnext
      obtain ⟨parts, hlength, hparts⟩ := ih (index + 1) s1 (hnext.room ▸ hroom)
      exact ⟨[charges] ++ parts, by simpa using hlength, hnext.trans hparts⟩
    · rename_i h
      rw [h] at hnext
      exact ⟨[charges], by simp, hnext⟩

end MessageProcessor

open MessageProcessor in
/-- Whether the message succeeds or fails, what it accumulates is what it took off the
meter: the meter goes down by one charge after the other, the charges are those of the
instructions that were processed, and each of these reports its own, with those of the
instructions it had processed among them, once. -/
theorem compute_units_reported_once (ext : Externals) (ids : LoaderIds) (precompiles : Precompiles)
    (message : SVMTransaction) (programs : (topLevelInstructionIndex : Nat) → Pubkey → Option Program)
    (s : MeteredContext) :
    let find i := Program.entrypoints ext ids (programs i)
    let s' := final (processMessage ext ids precompiles message find) ⟨s, 0⟩
    s'.accumulatedConsumedUnits.toNat = s.computeMeter.toNat - s'.context.computeMeter.toNat ∧
      s'.context.computeMeter ≤ s.computeMeter ∧
      (∃ parts, parts.length ≤ message.programInstructions.length ∧ Accumulates ⟨s, 0⟩ parts s') ∧
      ∀ index programId instruction s,
        let process := processTopLevel ext ids precompiles message (find index) programId instruction
        Reported s (final process ⟨s, 0⟩).computeUnitsConsumed (final process ⟨s, 0⟩).context := by
  intro find s'
  have hroom : (0 : UInt64).toNat + s.computeMeter.toNat < 2 ^ 64 := by
    have := s.computeMeter.toNat_lt
    simpa using this
  have haccumulates : ∃ parts, parts.length ≤ message.programInstructions.length ∧ Accumulates ⟨s, 0⟩ parts s' := by
    let prepared : Accumulated := ⟨{ s with
      toInvokeContext := final (prepareTopLevelInstructions message.toSVMMessage) s.toInvokeContext }, 0⟩
    have hprepared : Accumulates ⟨s, 0⟩ [] prepared := ⟨.withContext s _, rfl⟩
    have hfinal := final_zoom (fun s : Accumulated => s.context.toInvokeContext)
      (fun s c => { s with context := { s.context with toInvokeContext := c } })
      (prepareTopLevelInstructions message.toSVMMessage) ⟨s, 0⟩
    simp only [s', processMessage, final_bind]
    rw [final] at hfinal
    split
    · rename_i _ s₁ h
      rw [h] at hfinal
      have hs₁ : s₁ = prepared := hfinal
      obtain ⟨parts, hlength, hparts⟩ := processFrom_accumulates ext ids precompiles message programs
        message.programInstructions 0 prepared hroom
      exact ⟨parts, hlength, hs₁ ▸ hprepared.trans hparts⟩
    · rename_i _ s₁ h
      rw [h] at hfinal
      exact ⟨[], Nat.zero_le _, (show s₁ = prepared from hfinal) ▸ hprepared⟩
  obtain ⟨parts, hlength, hparts⟩ := haccumulates
  have hunits : s'.accumulatedConsumedUnits.toNat + s'.context.computeMeter.toNat = s.computeMeter.toNat := by
    simpa using hparts.room
  refine ⟨by omega, ?_, ⟨parts, hlength, hparts⟩, ?_⟩
  · rw [le_iff_toNat_le]
    omega
  · exact fun index => processTopLevel_reported ext ids precompiles message (programs index)

end Svm
