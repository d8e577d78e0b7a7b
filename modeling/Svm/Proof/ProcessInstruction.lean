import Svm.Proof.Calls

/-!
# Processed instructions and the stacks

A run of `process_instruction` over any behaviour of the program it invokes
leaves one more syscall context for each push in it that fails late, and one
more instruction on the stack for some of these (`Grows`): `process_instruction`
returns the error of such a push without a pop. It is balanced exactly if there
is none (`processInstruction_balanced_iff`).
-/

namespace Svm

open Run EStateM InvokeContext

/-- The stacks have grown by at most one entry per late failure, of which there were
`late`: the syscall contexts by one for each. -/
def Grows (late : Nat) (s s' : InvokeContext) : Prop :=
  s'.syscallContext.length = s.syscallContext.length + late ∧
  s.transactionContext.getInstructionStackHeight ≤ s'.transactionContext.getInstructionStackHeight ∧
  s'.transactionContext.getInstructionStackHeight ≤ s.transactionContext.getInstructionStackHeight + late

theorem Grows.refl (s) : Grows 0 s s := ⟨rfl, le_rfl, le_rfl⟩

theorem Grows.trans (h : Grows late s s') (h' : Grows late' s' s'') : Grows (late + late') s s'' := by
  obtain ⟨hlen, hle, hge⟩ := h
  obtain ⟨hlen', hle', hge'⟩ := h'
  exact ⟨by omega, by omega, by omega⟩

theorem Grows.balanced_iff (h : Grows late s s') : Balanced s s' ↔ late = 0 := by
  obtain ⟨hlen, hle, hge⟩ := h
  constructor
  · intro hb
    have := hb.syscallContext
    omega
  · intro hlate
    exact ⟨by omega, by omega⟩

namespace TransactionContext

/-- The instructions sysvar is told an index exactly if it takes it. -/
theorem storeCurrentIndex_ok_iff {ext : Externals} :
    (∃ a', (storeCurrentIndex ext index n).run a = .ok () a') ↔ TakesIndex ext a index n := by
  obtain ⟨e, he⟩ | ⟨hlt, hfree, he⟩ := TransactionAccounts.tryBorrowMut_cases a index
  · refine iff_of_false ?_ fun h => ?_
    · rintro ⟨a', ha'⟩
      simp [storeCurrentIndex, he] at ha'
    · rw [TransactionAccounts.run_tryBorrowMut a h.listed, if_pos h.free] at he
      cases he
  · have hview : (a.takeBorrow index).view index = a.view index := TransactionAccounts.view_takeBorrow ..
    simp only [storeCurrentIndex, run_bind, he, run_get, hview]
    split
    · rename_i howner
      exact iff_of_false (by rintro ⟨a', ⟨⟩⟩) fun h => howner h.owner
    · rename_i howner
      cases hroom : (ext.storeCurrentIndexChecked (a.view index).data n).2 with
      | ok => exact iff_of_true ⟨_, rfl⟩ ⟨hlt, hfree, not_not.mp howner, hroom⟩
      | error e => exact iff_of_false (by rintro ⟨a', ⟨⟩⟩) fun h => by cases hroom.symm.trans h.room

/-- An unbalanced caller can not push. -/
theorem run_push_unbalanced (ctx : TransactionContext) (ext) (nested : ctx.instructionStack ≠ []) (delta : ctx.accounts.lamportsDelta ≠ 0) :
    (push ext).run ctx = .error .UnbalancedInstruction ctx := by
  simp [push, nested, delta]

/-- The height of the stack after a push, which fails exactly if the context refuses the
instruction: a failed one leaves the instruction there if only the sysvar could not be
told. -/
theorem height_push (ext) (htrace : ctx.instructionTrace ≠ []) :
    match (push ext).run ctx with
    | .ok _ ctx' => ¬ ctx.Refuses ext ∧ ctx'.getInstructionStackHeight = ctx.getInstructionStackHeight + 1
    | .error _ ctx' => ctx.Refuses ext ∧ ctx.getInstructionStackHeight ≤ ctx'.getInstructionStackHeight ∧
        ctx'.getInstructionStackHeight ≤ ctx.getInstructionStackHeight + 1 := by
  have hentered : ctx.entered.getInstructionStackHeight = ctx.getInstructionStackHeight + 1 := by
    simp [entered, stacked, getInstructionStackHeight]
  have houtcome := @push_outcome ctx ext htrace
  have hbalanced := run_push_unbalanced ctx ext
  generalize (push ext).run ctx = outcome at houtcome hbalanced
  cases houtcome with
  | unbalanced nested delta => exact ⟨.unbalanced nested delta, le_rfl, Nat.le_succ _⟩
  | traceFull full => exact ⟨.traceFull full, le_rfl, Nat.le_succ _⟩
  | tooDeep _ deep =>
    refine ⟨.tooDeep deep, ?_⟩
    simp only [getInstructionStackHeight, taken_instructionStack, leveled_instructionStack]
    omega
  | noSysvar room shallow sysvar =>
    refine ⟨fun h => ?_, hentered⟩
    cases h with
    | unbalanced nested delta => cases hbalanced nested delta
    | traceFull full => omega
    | tooDeep deep => omega
    | sysvar listed => cases sysvar.symm.trans listed
  | stored room shallow sysvar stores =>
    refine ⟨fun h => ?_, hentered⟩
    cases h with
    | unbalanced nested delta => cases hbalanced nested delta
    | traceFull full => omega
    | tooDeep deep => omega
    | sysvar listed refused =>
      cases sysvar.symm.trans listed
      exact refused (storeCurrentIndex_ok_iff.mp ⟨_, stores⟩)
  | notStored _ _ sysvar fails =>
    refine ⟨.sysvar sysvar fun h => ?_, hentered ▸ Nat.le_succ _, hentered.le⟩
    obtain ⟨a', ha'⟩ := storeCurrentIndex_ok_iff.mpr h
    cases fails.symm.trans ha'

end TransactionContext

namespace InvokeContext

theorem instructionTrace_ne_nil (h : Admits ctx) : ctx.instructionTrace ≠ [] := by
  obtain ⟨ic, _, hnext, -⟩ := h
  rintro hnil
  simp [TransactionContext.getNextInstructionContext, hnil, TransactionContext.getInstructionContextAtIndexInTrace] at hnext

/-- A push that succeeds adds to both stacks; one that fails leaves everything, unless
it fails late. -/
theorem grows_push (ext) (s) :
    match (push ext).run s with
    | .ok _ s' => ¬ FailsLate ext s ∧ s'.syscallContext.length = s.syscallContext.length + 1 ∧
        s'.transactionContext.getInstructionStackHeight = s.transactionContext.getInstructionStackHeight + 1
    | .error _ s' => ∃ late, Grows late s s' ∧ (late = 0 ↔ ¬ FailsLate ext s) := by
  obtain ⟨hrefused, e, he⟩ | ⟨hadmits, heq⟩ := push_cases ext s
  · rw [he]
    exact ⟨0, .refl s, iff_of_true rfl fun h => hrefused h.1⟩
  · have hheight := TransactionContext.height_push ext (instructionTrace_ne_nil hadmits)
    rw [heq]
    simp only [onTransaction, zoom, run] at hheight ⊢
    cases hpush : TransactionContext.push ext s.transactionContext with
    | ok u ctx =>
      rw [hpush] at hheight
      exact ⟨fun h => hheight.1 h.2, List.length_append, hheight.2⟩
    | error e ctx =>
      rw [hpush] at hheight
      refine ⟨1, ⟨List.length_append, hheight.2⟩, iff_of_false one_ne_zero (not_not.mpr ?_)⟩
      exact ⟨hadmits, hheight.1⟩

/-- A pop takes one off both stacks. -/
theorem final_pop_lengths (s) : (final pop s).syscallContext.length = s.syscallContext.length - 1 ∧
    (final pop s).transactionContext.getInstructionStackHeight =
      s.transactionContext.getInstructionStackHeight - 1 := by
  have hpop : final pop s = { transactionContext := final TransactionContext.pop s.transactionContext
                              syscallContext := s.syscallContext.dropLast } := by
    simp [pop, final_bind, onTransaction, final_zoom]
  rw [hpop]
  refine ⟨List.length_dropLast, ?_⟩
  obtain ⟨a, current, hpop, -⟩ := final_pop s.transactionContext
  rw [TransactionContext.getInstructionStackHeight, hpop, List.length_dropLast]
  rfl

theorem final_processInstruction (ext) (chain) (s) :
    final (processInstruction ext chain) s =
      match (push ext).run s with
      | .ok _ s' => final pop (final chain s')
      | .error _ s' => s' := by
  rw [processInstruction, final_bind]
  cases (push ext).run s with
  | error e s' => rfl
  | ok u s' => simp [final_bind, run_attempt]

/-- What holds of the program that an instruction invokes holds of the instruction. -/
theorem grows_processInstruction (ext) {chain : InvokeM Unit}
    (hchain : ∀ s, ∃ late, Grows late s (final chain s) ∧ (late = 0 ↔ clean s)) (s) :
    ∃ late, Grows late s (final (processInstruction ext chain) s) ∧ (late = 0 ↔ CleanCall ext clean s) := by
  rw [final_processInstruction]
  have hpush := grows_push ext s
  cases hrun : (push ext).run s with
  | error e s' =>
    rw [hrun] at hpush
    obtain ⟨late, hgrows, hlate⟩ := hpush
    refine ⟨late, hgrows, hlate.trans ⟨fun h => ⟨h, fun s'' hs'' => ?_⟩, fun h => h.1⟩⟩
    rw [hrun] at hs''
    cases hs''
  | ok u s' =>
    rw [hrun] at hpush
    obtain ⟨hlate, hsyscall, hheight⟩ := hpush
    obtain ⟨late, ⟨hlen, hle, hge⟩, hclean⟩ := hchain s'
    obtain ⟨hpoplen, hpopheight⟩ := final_pop_lengths (final chain s')
    refine ⟨late, ⟨?_, ?_, ?_⟩, hclean.trans ⟨fun h => ⟨hlate, fun s'' hs'' => ?_⟩, fun h => h.2 s' hrun⟩⟩
    · show (final pop (final chain s')).syscallContext.length = _
      omega
    · show _ ≤ (final pop (final chain s')).transactionContext.getInstructionStackHeight
      omega
    · show (final pop (final chain s')).transactionContext.getInstructionStackHeight ≤ _
      omega
    · rw [hrun] at hs''
      cases hs''
      exact h

end InvokeContext

/-- The run of a program leaves one more syscall context for every push that fails
late. -/
theorem Behaviour.grows_run (ext) (b : Behaviour) (s) :
    ∃ late, Grows late s (final (b.run ext) s) ∧ (late = 0 ↔ b.Clean ext s) := by
  induction b generalizing s with
  | done result =>
    rw [run, final_ofExcept]
    exact ⟨0, .refl s, iff_of_true rfl trivial⟩
  | work w next ih =>
    obtain ⟨late, hgrows, hlate⟩ := ih s (w.apply s)
    have hheight := congrArg List.length (w.stack s)
    have hwork : Grows 0 s (w.apply s) := ⟨w.syscallContext s, hheight.ge, hheight.le⟩
    refine ⟨late, ?_, hlate⟩
    rw [← zero_add late]
    exact hwork.trans hgrows
  | call callee next ihcallee ihnext =>
    obtain ⟨late, hgrows, hlate⟩ := grows_processInstruction ext ihcallee s
    obtain ⟨late', hgrows', hlate'⟩ :=
      ihnext (result (processInstruction ext (callee.run ext)) s)
        (final (processInstruction ext (callee.run ext)) s)
    refine ⟨late + late', ?_, ?_⟩
    · rw [run, final_bind, run_attempt]
      exact hgrows.trans hgrows'
    · rw [Nat.add_eq_zero_iff, hlate, hlate']
      rfl

/-- `process_instruction` returns with both stacks as high as they were exactly if no
push in its run fails late. -/
theorem processInstruction_balanced_iff (ext : Externals) (program : Behaviour) (s : InvokeContext) :
    Balanced s (final (InvokeContext.processInstruction ext (program.run ext)) s) ↔
      CleanCall ext (program.Clean ext) s := by
  obtain ⟨late, hgrows, hlate⟩ := grows_processInstruction ext (program.grows_run ext) s
  rw [hgrows.balanced_iff, hlate]

/-! ## A program that calls itself -/

namespace SelfCall

def key (n : UInt8) : Pubkey := .replicate 32 n

def account : AccountSharedData where
  lamports := 1
  data := ⟨[], false, 0⟩
  owner := key 0
  executable := true
  rentEpoch := 0

/-- One account, the program. -/
def accounts : List (Pubkey × AccountSharedData) := [(key 1, account)]

/-- One instruction of the program, with its account. -/
def message : SVMMessage where
  instructions := [⟨0, [0], []⟩]
  isSigner _ := false
  isWritable _ := false

def ext : Externals where
  instructionsId := key 8
  sysvarId := key 9
  storeCurrentIndexChecked _ _ := ([], .ok ())
  payloadAddr _ _ := 0

def rent : Rent := ⟨fun _ _ => true⟩

/-- The call. -/
def instruction : Instruction := ⟨key 1, [⟨key 1, false, false⟩], []⟩

variable (stackCapacity traceCapacity : Nat)

def start : InvokeContext :=
  final (prepareTopLevelInstructions message) ⟨.new accounts rent stackCapacity traceCapacity 1, []⟩

/-- The program runs. -/
def entered : InvokeContext :=
  final (push ext) (start stackCapacity traceCapacity)

/-- It has prepared the call. -/
def prepared : InvokeContext :=
  final (prepareNextCpiInstruction instruction []) (entered stackCapacity traceCapacity)

end SelfCall

/-- A call that was prepared at the full height of the stack: it is refused with
`CallDepth`, and there is one more syscall context than before. -/
theorem processInstruction_leaves_syscallContext :
    (InvokeContext.push SelfCall.ext).run (SelfCall.start 1 64) = .ok () (SelfCall.entered 1 64) ∧
    (InvokeContext.prepareNextCpiInstruction SelfCall.instruction []).run (SelfCall.entered 1 64) =
      .ok () (SelfCall.prepared 1 64) ∧
    ∃ program : Behaviour,
      result (InvokeContext.processInstruction SelfCall.ext (program.run SelfCall.ext)) (SelfCall.prepared 1 64) =
        .error .CallDepth ∧
      ¬ Balanced (SelfCall.prepared 1 64)
        (final (InvokeContext.processInstruction SelfCall.ext (program.run SelfCall.ext))
          (SelfCall.prepared 1 64)) := by
  refine ⟨rfl, rfl, .done (.ok ()), rfl, fun h => ?_⟩
  have hlength : 2 = 1 := h.syscallContext
  omega

end Svm
