import Mathlib.Data.List.Chain
import Svm.Proof.CpiAccounts
import Svm.Proof.ProcessedSibling
import Svm.Spec.InnerInstructions

/-!
# Inner instructions are recorded under their top level instruction

A log of pushes is one of a stack (`Replays`): each push is on top of an instruction
that is still there. So every instruction of it has one root (`exists_roots`), and the
calls under a root are in depth first order (`Replays.depthFirst`). The loop of
`deconstruct_transaction` notes the root of each call, since its caller comes before it
(`recordFrom_eq`), and the trace that a run leaves has the calls of its log
(`inner_instructions_recorded`). More calls than the counter can count are recorded
under a top level instruction that there is not (`inner_instructions_miscounted`).
-/

namespace Svm

open Machine Run InnerInstructions InvokeContext EStateM SelfCall
open List hiding getElem?_eq_some_iff
open TransactionContext hiding pop

variable {log : List Invocation} {stack : List Nat} {p : Invocation} {root : Nat → Nat}
  {n traceCapacity caller : Nat} {ctx : TransactionContext}
  {signers : List Pubkey} {table : List UInt16} {accounts : List InstructionAccount}
  {r : Recording} {ext : Externals} {message : SVMMessage} {s : TraceState}

/-! ## Logs of a stack -/

/-- The log is that of pushes on a stack, which is the given one after the last push.
Before each push, the stack is cut to the level of the push. -/
inductive Replays : List Invocation → List Nat → Prop
  | nil : Replays [] []
  | push {log : List Invocation} {stack : List Nat} (replays : Replays log stack) {index level : Nat}
      (le : level ≤ stack.length) :
      Replays (log ++ [⟨index, level, (stack.take level).getLast?⟩]) (stack.take level ++ [index])

namespace Replays

theorem mem_log (h : Replays log stack) (hi : i ∈ stack) : ∃ p ∈ log, p.index = i := by
  induction h with
  | nil => cases hi
  | push _ _ ih =>
    rcases mem_append.mp hi with hi | hi
    · obtain ⟨p, hp, hindex⟩ := ih (mem_of_mem_take hi)
      exact ⟨p, mem_append_left _ hp, hindex⟩
    · exact ⟨_, mem_append_right _ (mem_singleton_self _), (mem_singleton.mp hi).symm⟩

theorem caller_mem_log (h : Replays log stack) (hp : p ∈ log)
    (hcaller : p.caller = some caller) : ∃ q ∈ log, q.index = caller := by
  induction h with
  | nil => cases hp
  | push replays _ ih =>
    rcases mem_append.mp hp with hp | hp
    · obtain ⟨q, hq, hindex⟩ := ih hp
      exact ⟨q, mem_append_left _ hq, hindex⟩
    · obtain rfl := mem_singleton.mp hp
      obtain ⟨q, hq, hindex⟩ := replays.mem_log (mem_of_mem_take (mem_of_getLast? hcaller))
      exact ⟨q, mem_append_left _ hq, hindex⟩

end Replays

theorem RootOf.mono (hsub : log ⊆ log') {root : Nat} (h : RootOf log i root) : RootOf log' i root := by
  induction h with
  | topLevel mem caller => exact .topLevel (hsub mem) caller
  | call mem called _ ih => exact .call (hsub mem) called ih

theorem Replays.exists_rootOf (h : Replays log stack) (hp : p ∈ log) : ∃ root, RootOf log p.index root := by
  induction h generalizing p with
  | nil => cases hp
  | @push log stack replays index level le ih =>
    rcases mem_append.mp hp with hp | hp
    · obtain ⟨root, hroot⟩ := ih hp
      exact ⟨root, hroot.mono (subset_append_left ..)⟩
    · have hmem := mem_append_right log hp
      obtain rfl := mem_singleton.mp hp
      cases hcaller : (stack.take level).getLast? with
      | none => exact ⟨_, .topLevel (hcaller ▸ hmem) rfl⟩
      | some caller =>
        obtain ⟨q, hq, rfl⟩ := replays.mem_log (mem_of_mem_take (mem_of_getLast? hcaller))
        obtain ⟨root, hroot⟩ := ih hq
        exact ⟨root, .call (hcaller ▸ hmem) rfl (hcaller ▸ hroot.mono (subset_append_left ..))⟩

theorem RootOf.unique (hinj : ∀ p ∈ log, ∀ q ∈ log, p.index = q.index → p.caller = q.caller) {root : Nat}
    (h : RootOf log i root) (h' : RootOf log i root') : root = root' := by
  induction h with
  | @topLevel p hp hcaller =>
    generalize hi : p.index = i at h'
    cases h' with
    | topLevel => rfl
    | @call q _ _ hq hcalled _ =>
      rw [hinj p hp q hq hi, hcalled] at hcaller
      cases hcaller
  | @call p caller root hp hcalled _ ih =>
    generalize hi : p.index = i at h'
    cases h' with
    | @topLevel q hq hcaller =>
      rw [hinj p hp q hq hi, hcaller] at hcalled
      cases hcalled
    | @call q caller' _ hq hcalled' hroot' =>
      rw [hinj p hp q hq hi, hcalled'] at hcalled
      cases hcalled
      exact ih hroot'

/-- A function that gives every instruction of the log its root. -/
structure Roots (log : List Invocation) (root : Nat → Nat) : Prop where
  topLevel : ∀ p ∈ log, p.caller = none → root p.index = p.index
  call : ∀ p ∈ log, ∀ caller, p.caller = some caller → root p.index = root caller

theorem exists_roots (h : Replays log stack) (hinj : ∀ p ∈ log, ∀ q ∈ log, p.index = q.index → p.caller = q.caller) :
    ∃ root, Roots log root ∧ ∀ p ∈ log, ∀ k, RootOf log p.index k ↔ root p.index = k := by
  let root (i : Nat) : Nat := Classical.epsilon (RootOf log i)
  have hroot : ∀ p ∈ log, RootOf log p.index (root p.index) :=
    fun p hp => Classical.epsilon_spec (h.exists_rootOf hp)
  refine ⟨root, ⟨fun p hp hcaller => ?_, fun p hp caller hcaller => ?_⟩, fun p hp k => ⟨fun hk => ?_, ?_⟩⟩
  · exact (hroot p hp).unique hinj (.topLevel hp hcaller)
  · obtain ⟨q, hq, rfl⟩ := h.caller_mem_log hp hcaller
    exact (hroot p hp).unique hinj (.call hp hcaller (hroot q hq))
  · exact (hroot p hp).unique hinj hk
  · rintro rfl
    exact hroot p hp

/-- The calls with a root, in their order. -/
def callsWith (root : Nat → Nat) (log : List Invocation) (k : Nat) : List Invocation :=
  log.filter fun p => p.caller ≠ none ∧ root p.index = k

theorem callsUnder_eq (hroot : ∀ p ∈ log, ∀ k, RootOf log p.index k ↔ root p.index = k) (k : Nat) :
    callsUnder log k = callsWith root log k := by
  refine filter_congr fun p hp => ?_
  rw [decide_eq_decide, hroot p hp k]

/-- The heights of the calls with a root, from that of the root on. -/
def heightsWith (root : Nat → Nat) (log : List Invocation) (k : Nat) : List Nat :=
  1 :: (callsWith root log k).map (·.level + 1)

theorem heightsWith_append_call (hcaller : p.caller = some caller) (k : Nat) : heightsWith root (log ++ [p]) k =
      if root p.index = k then heightsWith root log k ++ [p.level + 1] else heightsWith root log k := by
  by_cases hk : root p.index = k <;> simp [heightsWith, callsWith, hcaller, hk]

theorem heightsWith_append_topLevel (hcaller : p.caller = none) (k : Nat) :
    heightsWith root (log ++ [p]) k = heightsWith root log k := by
  simp [heightsWith, callsWith, hcaller]

theorem exists_last_heightsWith (root) (log) (k : Nat) :
    ∃ last, (heightsWith root log k).getLast? = some last ∧ 1 ≤ last := by
  obtain ⟨last, hlast⟩ := Option.ne_none_iff_exists'.mp
    (show (heightsWith root log k).getLast? ≠ none by simp [heightsWith])
  refine ⟨last, hlast, ?_⟩
  rcases mem_cons.mp (mem_of_getLast? hlast) with rfl | hmem
  · exact le_rfl
  · obtain ⟨p, -, rfl⟩ := mem_map.mp hmem
    exact Nat.le_add_left ..

/-- The calls with a root are in depth first order: the stack has one root, and is no
higher than the last of its calls left it. -/
theorem Replays.depthFirst (h : Replays log stack) (hroots : Roots log root) :
    (∀ k, (heightsWith root log k).IsChain fun height next => 2 ≤ next ∧ next ≤ height + 1) ∧
    ∀ i ∈ stack, (∀ j ∈ stack, root j = root i) ∧
      ∃ last, (heightsWith root log (root i)).getLast? = some last ∧ stack.length ≤ last := by
  induction h with
  | nil => exact ⟨fun k => by simp [heightsWith, callsWith], by simp⟩
  | @push log stack replays index level le ih =>
    obtain ⟨hchain, hstack⟩ := ih
      ⟨fun p hp => hroots.topLevel p (mem_append_left _ hp),
        fun p hp => hroots.call p (mem_append_left _ hp)⟩
    have hmem : (⟨index, level, (stack.take level).getLast?⟩) ∈
      log ++ [⟨index, level, (stack.take level).getLast?⟩] := mem_append_right _ (mem_singleton_self _)
    cases hcaller : (stack.take level).getLast? with
    | none =>
      have hnil : stack.take level = [] := getLast?_eq_none_iff.mp hcaller
      simp only [heightsWith_append_topLevel, hnil, nil_append, mem_singleton]
      refine ⟨hchain, ?_⟩
      rintro i rfl
      refine ⟨fun j hj => by rw [hj], ?_⟩
      exact exists_last_heightsWith root log _
    | some caller =>
      have hmem' := mem_of_getLast? hcaller
      obtain ⟨hone, last, hlast, hle⟩ := hstack caller (mem_of_mem_take hmem')
      have hroot : root index = root caller := hroots.call _ hmem caller hcaller
      have hlevel : 0 < level := by
        rcases eq_zero_or_pos level with rfl | hpos
        · simp at hmem'
        · exact hpos
      simp only [heightsWith_append_call (p := ⟨index, level, some caller⟩) rfl, hroot]
      refine ⟨fun k => ?_, fun i hi => ?_⟩
      · split
        · rename_i hk
          subst hk
          refine isChain_append.mpr ⟨hchain _, isChain_singleton _, ?_⟩
          intro height hheight next hnext
          rw [hlast] at hheight
          cases hheight
          cases hnext
          omega
        · exact hchain k
      · have hroots' : ∀ j ∈ stack.take level ++ [index], root j = root caller := by
          intro j hj
          rcases mem_append.mp hj with hj | hj
          · exact hone j (mem_of_mem_take hj)
          · rw [mem_singleton.mp hj, hroot]
        refine ⟨fun j hj => (hroots' j hj).trans (hroots' i hi).symm, level + 1, ?_, ?_⟩
        · rw [if_pos (hroots' i hi).symm, getLast?_append]
          rfl
        · rw [length_append, length_take, length_singleton]
          omega

/-! ## The loop -/

/-- The instruction at an index of the trace, as the loop gets it. -/
def TransactionContext.traced (ctx : TransactionContext) (index : Nat) : TracedInstruction :=
  ((ctx.instructionTrace[index]?.getD default, ctx.instructionData[index]?.getD []),
    ctx.instructionAccounts[index]?.getD [])

theorem set_map_range {α : Type} {x : α} {f g : Nat → α} (hk : x = g k) (hne : ∀ i ≠ k, g i = f i) :
    ((range n).map f).set k x = (range n).map g := by
  refine ext_getElem (by simp) fun i _ _ => ?_
  rw [getElem_set, getElem_map, getElem_map, getElem_range]
  split
  · rename_i he
    rw [hk, he]
  · rename_i he
    rw [hne i (Ne.symm he)]

/-- Calls that the loop can record: they follow `n` top level instructions in the trace,
and a caller comes before its call and has the same root. -/
structure Recordable (n : Nat) (ctx : TransactionContext) (root : Nat → Nat) (calls : List Invocation) : Prop where
  bounded : n ≤ 65536
  index : ∀ (j : Nat) (p : Invocation), calls[j]? = some p → p.index = n + j
  root_lt : ∀ p ∈ calls, root p.index < n
  caller : ∀ p ∈ calls, ∃ frame caller, ctx.instructionTrace[p.index]? = some frame ∧
    frame.indexOfCallerInstruction.toNat = caller ∧ caller ≠ 65535 ∧ caller < p.index ∧
    root p.index = root caller ∧ (caller < n → root caller = caller)

/-- The variables of the loop after some calls out of `m`. -/
def recordingOf (n m : Nat) (ctx : TransactionContext) (root : Nat → Nat) (calls : List Invocation) : Recording where
  parentPositions := calls.map (root ·.index) ++ .replicate (m - calls.length) USIZE_MAX
  outerInstructions := (range n).map fun k =>
    (calls.filter (root ·.index = k)).map fun p => innerInstruction (ctx.traced p.index)
  asserted := true

namespace Recordable

theorem findOuterIndex_eq (h : Recordable n ctx root (done ++ p :: rest)) :
    findOuterIndex n (recordingOf n (done ++ p :: rest).length ctx root done).parentPositions
      (ctx.traced p.index).1.1.indexOfCallerInstruction = some (root p.index) := by
  obtain ⟨frame, caller, hframe, hcaller, -, hlt, hroot, htop⟩ := h.caller p (by simp)
  have hindex : p.index = n + done.length := h.index done.length p (by simp)
  simp only [traced, hframe, Option.getD_some, findOuterIndex, hcaller]
  split
  · rename_i hn
    rw [hroot, htop hn]
  · have hj : caller - n < done.length := by omega
    have hcalled : done[caller - n].index = caller := by
      have := h.index (caller - n) done[caller - n] (by rw [getElem?_append_left hj, getElem?_eq_getElem hj])
      omega
    have hposition : (recordingOf n (done ++ p :: rest).length ctx root done).parentPositions[caller - n]? =
        some (root caller) := by
      rw [recordingOf, getElem?_append_left (by rwa [length_map]), getElem?_map,
        getElem?_eq_getElem hj, Option.map_some, hcalled]
    have hlt' : root caller < n := hroot ▸ h.root_lt p (by simp)
    have hbounded := h.bounded
    rw [hposition]
    dsimp only
    rw [if_pos (by rw [USIZE_MAX]; omega), hroot]

theorem recordNext_eq (h : Recordable n ctx root (done ++ p :: rest)) :
    recordNext n done.length (ctx.traced p.index) (recordingOf n (done ++ p :: rest).length ctx root done) =
      some (recordingOf n (done ++ p :: rest).length ctx root (done ++ [p])) := by
  have hroot := h.root_lt p (by simp)
  obtain ⟨frame, caller, hframe, hcaller, hne, -, -, -⟩ := h.caller p (by simp)
  have hasserted : ((ctx.traced p.index).1.1.indexOfCallerInstruction != 65535) = true := by
    simp only [traced, hframe, Option.getD_some, bne_iff_ne]
    rintro hmax
    rw [hmax] at hcaller
    exact hne hcaller.symm
  have hleft : (done ++ p :: rest).length - done.length = rest.length + 1 := by
    rw [length_append, length_cons]
    omega
  have hlength : done.length < (recordingOf n (done ++ p :: rest).length ctx root done).parentPositions.length := by
    rw [recordingOf, length_append, length_map, length_replicate]
    omega
  have hpositions : (recordingOf n (done ++ p :: rest).length ctx root done).parentPositions.set done.length
      (root p.index) = (recordingOf n (done ++ p :: rest).length ctx root (done ++ [p])).parentPositions := by
    simp only [recordingOf, map_append, length_append, length_cons, length_nil]
    rw [set_append_right _ _ (by rw [length_map]), length_map, Nat.sub_self,
      show done.length + (rest.length + 1) - done.length = rest.length + 1 by omega, append_assoc,
      show done.length + (rest.length + 1) - (done.length + (0 + 1)) = rest.length by omega]
    rfl
  have houter : (recordingOf n (done ++ p :: rest).length ctx root done).outerInstructions[root p.index]? =
      some ((done.filter (root ·.index = root p.index)).map fun q => innerInstruction (ctx.traced q.index)) := by
    rw [recordingOf, getElem?_map, getElem?_range hroot, Option.map_some]
  simp only [recordNext, noteOuterIndex, h.findOuterIndex_eq, if_pos hlength, hpositions, hasserted,
    Option.map_some, addInner, houter]
  refine congrArg some ?_
  simp only [recordingOf, Recording.mk.injEq, true_and, and_true, Bool.and_true]
  refine set_map_range ?_ fun k hk => ?_
  · simp
  · simp [Ne.symm hk]

/-- The loop records every call under its root. -/
theorem recordFrom_eq (h : Recordable n ctx root (done ++ rest)) :
    recordFrom n done.length (rest.map fun p => ctx.traced p.index)
      (recordingOf n (done ++ rest).length ctx root done) =
        some (recordingOf n (done ++ rest).length ctx root (done ++ rest)) := by
  induction rest generalizing done with
  | nil => rw [append_nil]; rfl
  | cons p rest ih =>
    have hassoc : done ++ p :: rest = (done ++ [p]) ++ rest := by simp
    rw [map_cons, recordFrom, h.recordNext_eq]
    rw [hassoc] at h ⊢
    have hrest := ih h
    rw [length_append] at hrest
    exact hrest

end Recordable

/-! ## The trace at the end of a run -/

/-- The indices of a configuration are those of a transaction with at most 256 accounts. -/
structure Configuration.Small (c : Configuration) : Prop where
  program : c.program.toNat < 256
  accounts : ∀ account ∈ c.accounts, account.indexInTransaction.toNat < 256
  table : c.table.length = 256

/-- The calls of a log. -/
def callsOf (log : List Invocation) : List Invocation := log.filter fun p => p.caller ≠ none

theorem mem_callsOf : p ∈ callsOf log ↔ p ∈ log ∧ p.caller ≠ none := by
  simp [callsOf]

theorem callsWith_eq (root) (log) (k : Nat) :
    callsWith root log k = (callsOf log).filter (root ·.index = k) := by
  rw [callsOf, callsWith]
  simp [and_comm]

namespace TraceInv

variable {prepared : Bool}

variable (h : TraceInv n ctx configured log prepared)

include h

theorem length_callsOf : (callsOf log).length = ctx.transactionFrame.numberOfCpisInTrace.toNat := by
  have hlength := congrArg List.length h.calls
  rwa [length_map, length_range'] at hlength

/-- The calls are in the order of the trace. -/
theorem index_callsOf (hp : (callsOf log)[j]? = some p) : p.index = n + j := by
  obtain ⟨hlt, -⟩ := getElem?_eq_some_iff.mp hp
  rw [h.length_callsOf] at hlt
  have hindex : ((callsOf log).map (·.index))[j]? = (range' n _)[j]? := congrArg (·[j]?) h.calls
  rw [getElem?_map, hp, getElem?_range' hlt, one_mul] at hindex
  exact Option.some.inj hindex

/-- What the loop goes over are the calls. -/
theorem drop_traced : ((ctx.instructionTrace.dropLast.zip ctx.instructionData).zip ctx.instructionAccounts).drop n =
      (callsOf log).map fun p => ctx.traced p.index := by
  have hcount := h.count
  have hlength := h.length
  have hcalls := h.length_callsOf
  have hdata : ctx.instructionData.length = configured.length := by rw [h.instructionData, length_map]
  have haccounts : ctx.instructionAccounts.length = configured.length := by rw [h.instructionAccounts, length_map]
  refine ext_getElem ?_ fun j hj hj' => ?_
  · simp only [length_drop, length_zip, length_dropLast, length_map]
    omega
  · rw [length_map] at hj'
    have hindex := h.index_callsOf (getElem?_eq_getElem hj')
    simp only [getElem_drop, getElem_zip, getElem_dropLast, getElem_map, traced, hindex]
    rw [getElem?_eq_getElem (by omega), getElem?_eq_getElem (by omega), getElem?_eq_getElem (by omega)]
    rfl

theorem recordable (hreplays : Replays log stack) (hroots : Roots log root)
    (hrootOf : ∀ p ∈ log, ∀ k, RootOf log p.index k ↔ root p.index = k) : Recordable n ctx root (callsOf log) where
  bounded := by
    have := h.bounded
    omega
  index j p hp := h.index_callsOf hp
  root_lt p hp := by
    have htop : ∀ {i k}, RootOf log i k → k < n := by
      intro i k hk
      induction hk with
      | @topLevel q hq hcaller =>
        exact (h.top_lt hq hcaller).trans_le h.next
      | call _ _ _ ih => exact ih
    exact htop ((hrootOf p (mem_callsOf.mp hp).1 _).mpr rfl)
  caller p hp := by
    obtain ⟨hp, hcalled⟩ := mem_callsOf.mp hp
    obtain ⟨caller, hcaller⟩ := Option.ne_none_iff_exists'.mp hcalled
    obtain ⟨-, hlt, ⟨frame, hframe, hindex⟩, -⟩ := h.callers p hp caller hcaller
    refine ⟨frame, caller, hframe, hindex, ?_, hlt, hroots.call p hp caller hcaller, fun hn => ?_⟩
    · have := h.index_lt hp
      have := h.called
      have := h.bounded
      omega
    · obtain ⟨q, hq, rfl⟩ := hreplays.caller_mem_log hp hcaller
      refine hroots.topLevel q hq ?_
      cases hq' : q.caller with
      | none => rfl
      | some caller' =>
        have := (h.callers q hq caller' hq').1
        omega

/-- What the loop records of a call is its configuration at its height. -/
theorem recordedAs (hsmall : ∀ c ∈ configured, c.Small) (hlevels : ∀ p ∈ log, p.level < 255)
    (hp : p ∈ log) : RecordedAs configured p (innerInstruction (ctx.traced p.index)) := by
  have hlt : p.index < configured.length := by
    have := h.index_lt hp
    have := h.count
    omega
  obtain ⟨frame, hframe, hlevel⟩ := h.levels p hp
  obtain ⟨frame', hframe', hprogram⟩ := h.program p.index _ (getElem?_eq_getElem hlt)
  rw [hframe] at hframe'
  cases hframe'
  have hc := hsmall _ (getElem_mem hlt)
  have hlow := hlevels p hp
  have hdata : ctx.instructionData[p.index]? = some configured[p.index].data := by
    rw [h.instructionData, getElem?_map, getElem?_eq_getElem hlt, Option.map_some]
  have haccounts : ctx.instructionAccounts[p.index]? = some configured[p.index].accounts := by
    rw [h.instructionAccounts, getElem?_map, getElem?_eq_getElem hlt, Option.map_some]
  simp only [traced, hframe, hdata, haccounts, Option.getD_some, innerInstruction, hlevel, hprogram]
  refine ⟨⟨_, getElem?_eq_getElem hlt, ?_, ?_, rfl⟩, ?_⟩
  · exact Nat.mod_eq_of_lt hc.program
  · rw [map_map]
    refine map_congr_left fun account haccount => ?_
    exact Nat.mod_eq_of_lt (hc.accounts account haccount)
  · rw [satAdd_eq (by omega), if_pos (by omega)]
    exact Nat.mod_eq_of_lt (by omega)

/-- The trace records the calls of the log. -/
theorem recordsCalls (hsmall : ∀ c ∈ configured, c.Small) (hlevels : ∀ p ∈ log, p.level < 255)
    (hreplays : Replays log stack) (hfirst : n = 0 → ctx.instructionTrace = [default]) :
    RecordsCalls n configured log ctx := by
  obtain ⟨root, hroots, hrootOf⟩ := exists_roots hreplays fun p hp q hq => h.caller_of_index hp hq
  have hrecordable := h.recordable hreplays hroots hrootOf
  have hrecorded : ∀ p ∈ log, RecordedAs configured p (innerInstruction (ctx.traced p.index)) :=
    fun p hp => h.recordedAs hsmall hlevels hp
  have hcalls : ∀ k, ∀ p ∈ callsWith root log k, p ∈ log := fun k p hp => mem_of_mem_filter hp
  refine ⟨recordingOf n (callsOf log).length ctx root (callsOf log), ?_, rfl, ?_, ?_, ?_⟩
  · have htop : ctx.getInstructionTraceLength - ctx.transactionFrame.numberOfCpisInTrace.toNat = n := by
      rw [h.traceLength, Nat.add_sub_cancel]
    obtain ⟨ic, hic, hheight⟩ : ∃ ic, ctx.getInstructionContextAtIndexInTrace 0 = .ok ic ∧ ic.getStackHeight = 1 := by
      obtain ⟨frame, hframe, hzero⟩ : ∃ frame, ctx.instructionTrace[0]? = some frame ∧ frame.nestingLevel = 0 := by
        rcases eq_zero_or_pos n with hn | hn
        · exact ⟨default, by rw [hfirst hn]; rfl, rfl⟩
        · obtain ⟨frame, hframe, hzero, -⟩ := h.topLevel 0 hn
          exact ⟨frame, hframe, hzero⟩
      simp only [getInstructionContextAtIndexInTrace, hframe]
      exact ⟨_, rfl, by rw [hzero]; rfl⟩
    have hstart : recordingOf n (callsOf log).length ctx root [] =
        ⟨.replicate ctx.transactionFrame.numberOfCpisInTrace.toNat USIZE_MAX, .replicate n [], true⟩ := by
      simp [recordingOf, h.length_callsOf]
    have hfrom := (show Recordable n ctx root ([] ++ callsOf log) from hrecordable).recordFrom_eq
    rw [nil_append, hstart] at hfrom
    simp only [deconstructTransaction, takeInstructionTrace, htop, hic, hheight, h.drop_traced, beq_self_eq_true]
    rw [show recordFrom n 0 _ _ = _ from hfrom]
    rfl
  · simp [recordingOf]
  · intro k list hlist
    obtain ⟨hk, hlist⟩ := getElem?_eq_some_iff.mp hlist
    rw [← hlist, callsUnder_eq hrootOf]
    simp only [recordingOf, getElem_map, getElem_range, ← callsWith_eq]
    rw [forall₂_map_right_iff, forall₂_same]
    exact fun p hp => hrecorded p (hcalls k p hp)
  · intro list hlist
    obtain ⟨k, -, rfl⟩ := mem_map.mp hlist
    rw [← callsWith_eq, map_map]
    have hheights : (callsWith root log k).map ((·.stackHeight.toNat) ∘ fun p => innerInstruction (ctx.traced p.index)) =
        (callsWith root log k).map (·.level + 1) :=
      map_congr_left fun p hp => (hrecorded p (hcalls k p hp)).stackHeight
    rw [hheights]
    exact (hreplays.depthFirst hroots).1 k

end TraceInv

/-! ## Indices of accounts -/

theorem Configuration.small_topLevel (message : SVMMessage) (instruction) :
    (message.configuration instruction).Small := by
  obtain ⟨hlength, haccounts⟩ := smallIndices_resolveTopLevel message instruction
  refine ⟨?_, haccounts, hlength⟩
  have := instruction.programIdIndex.toNat_lt
  show instruction.programIdIndex.toNat % 65536 < 256
  omega

theorem Configuration.small_call {instruction : Instruction} {program : UInt16}
    (hcurrent : ∀ ic, ctx.getCurrentInstructionContext = .ok ic → ic.dedupMap.length = 256)
    (hresolved : resolveCpi ctx instruction signers = .ok (program, accounts, table)) :
    Small ⟨program, accounts, table, instruction.data⟩ := by
  obtain ⟨hlength, hsmall⟩ := smallIndices_resolveCpi hresolved
  obtain ⟨caller, merged, hcaller, -, -, hprogram⟩ := resolveCpi_eq_ok hresolved
  obtain ⟨-, index, hindex⟩ := findProgram_ok hprogram
  refine ⟨?_, hsmall, hlength⟩
  simp only [InstructionContext.getIndexOfAccountInInstruction] at hindex
  split at hindex
  · rename_i hmap
    exact hcurrent caller hcaller ▸ (getElem?_eq_some_iff.mp hmap).1
  · cases hindex

/-! ## Runs -/

/-- A pop takes an instruction off the stack, and leaves what is recorded. -/
structure KeepsTrace (ctx ctx' : TransactionContext) : Prop where
  trace : ctx'.instructionTrace = ctx.instructionTrace
  accounts : ctx'.instructionAccounts = ctx.instructionAccounts
  data : ctx'.instructionData = ctx.instructionData
  cpis : ctx'.transactionFrame.numberOfCpisInTrace = ctx.transactionFrame.numberOfCpisInTrace
  next : ctx'.nextTopLevelInstructionIndex = ctx.nextTopLevelInstructionIndex
  capacity : ctx'.instructionStackCapacity = ctx.instructionStackCapacity
  stack : ctx'.instructionStack <+: ctx.instructionStack

theorem keepsTrace_pop (ctx) : KeepsTrace ctx (final TransactionContext.pop ctx) := by
  obtain ⟨a, current, hpop, -⟩ := final_pop ctx
  rw [hpop]
  exact ⟨rfl, rfl, rfl, rfl, rfl, rfl, dropLast_prefix _⟩

theorem Worked.keepsTrace {s : InvokeContext} (h : Worked ext s s') :
    KeepsTrace s.transactionContext s'.transactionContext := by
  obtain ⟨a, bytes, pubkey, scratchpad, cpiScratchpad, heq⟩ := h.rest
  rw [heq]
  exact ⟨rfl, rfl, rfl, rfl, rfl, rfl, prefix_refl _⟩

theorem RecordsCalls.keeps (h : RecordsCalls n configured log ctx) (hkeeps : KeepsTrace ctx ctx') :
    RecordsCalls n configured log ctx' := by
  obtain ⟨r, hr, hrest⟩ := h
  refine ⟨r, ?_, hrest⟩
  rw [← hr]
  simp only [deconstructTransaction, takeInstructionTrace, getInstructionTraceLength,
    getInstructionContextAtIndexInTrace, hkeeps.trace, hkeeps.accounts, hkeeps.data, hkeeps.cpis]
  cases ctx.instructionTrace[0]? <;> rfl

/-- The trace of a run, with the log as that of a stack, and what bounds the recorded
numbers. -/
structure LogInv (n stackCapacity : Nat) (ctx : TransactionContext) (configured : List Configuration)
    (log : List Invocation) (prepared : Bool) : Prop where
  trace : TraceInv n ctx configured log prepared
  replays : ∃ stack, Replays log stack ∧ ctx.instructionStack <+: stack
  small : ∀ c ∈ configured, c.Small
  capacity : ctx.instructionStackCapacity = stackCapacity
  levels : ∀ p ∈ log, p.level ≤ stackCapacity
  first : n = 0 → ctx.instructionTrace = [default]

namespace LogInv

variable {stackCapacity : Nat} {ctx' : TransactionContext} {configured : List Configuration} {prepared : Bool}

variable (h : LogInv n stackCapacity ctx configured log prepared)

include h

theorem recordsCalls (hdepth : stackCapacity < 255) : RecordsCalls n configured log ctx := by
  obtain ⟨stack, hreplays, -⟩ := h.replays
  exact h.trace.recordsCalls h.small (fun p hp => (h.levels p hp).trans_lt hdepth) hreplays h.first

/-- Nothing is pushed in a transaction without instructions. -/
theorem ne_zero (huse : TraceInv.PushUse n ctx prepared) : n ≠ 0 := by
  rcases huse with hprepared | ⟨-, hnext⟩
  · obtain ⟨top, htop, -⟩ := h.trace.reserved hprepared
    have hmem := mem_of_getLast? htop
    have hbottom := h.trace.bottom _ (getElem?_eq_getElem (length_pos_of_mem hmem))
    have := h.trace.next
    omega
  · omega

/-- A push takes the next instruction; the stack has it if the push went on to there. -/
theorem taken (hn : n ≠ 0) (htrace : TraceInv n ctx' configured (log ++ [ctx.nextInvocation]) false)
    (hstack : ctx'.instructionStack <+: ctx.instructionStack ++ [ctx.nextInvocation.index])
    (hcapacity : ctx'.instructionStackCapacity = ctx.instructionStackCapacity) :
    LogInv n stackCapacity ctx' configured (log ++ [ctx.nextInvocation]) false := by
  obtain ⟨stack, hreplays, hprefix⟩ := h.replays
  have htake : stack.take ctx.getInstructionStackHeight = ctx.instructionStack :=
    (prefix_iff_eq_take.mp hprefix).symm
  have hpush := @Replays.push _ _ hreplays ctx.nextInvocation.index _ hprefix.length_le
  refine ⟨htrace, ⟨ctx.instructionStack ++ [ctx.nextInvocation.index], ?_, hstack⟩, h.small,
    hcapacity.trans h.capacity, ?_, fun hzero => absurd hzero hn⟩
  · rw [getInstructionStackHeight] at htake
    rwa [htake] at hpush
  · intro p hp
    rcases mem_append.mp hp with hp | hp
    · exact h.levels p hp
    · rw [mem_singleton.mp hp, ← h.capacity]
      exact h.trace.depth

/-- A change of the context that the recording does not depend on. -/
theorem same (htrace : TraceInv n ctx' configured log prepared')
    (hstack : ctx'.instructionStack <+: ctx.instructionStack)
    (hcapacity : ctx'.instructionStackCapacity = ctx.instructionStackCapacity)
    (hfirst : n = 0 → ctx'.instructionTrace = ctx.instructionTrace) :
    LogInv n stackCapacity ctx' configured log prepared' := by
  obtain ⟨stack, hreplays, hprefix⟩ := h.replays
  exact ⟨htrace, ⟨stack, hreplays, hstack.trans hprefix⟩, h.small, hcapacity.trans h.capacity, h.levels,
    fun hn => (hfirst hn).trans (h.first hn)⟩

theorem keeps (hkeeps : KeepsTrace ctx ctx') (htrace : TraceInv n ctx' configured log prepared') :
    LogInv n stackCapacity ctx' configured log prepared' :=
  h.same htrace hkeeps.stack hkeeps.capacity fun _ => hkeeps.trace

/-- What a push leaves, whether it fails or not: the log has the next instruction if
the push took it. -/
theorem push (huse : TraceInv.PushUse n ctx prepared)
    {outcome : EStateM.Result InstructionError TransactionContext Unit} (houtcome : ctx.PushOutcome ext outcome) :
    match outcome with
    | .ok _ ctx' => LogInv n stackCapacity ctx' configured (log ++ [ctx.nextInvocation]) false
    | .error _ ctx' =>
      (∃ prepared', LogInv n stackCapacity ctx' configured log prepared') ∧
        ctx'.getInstructionTraceLength = ctx.getInstructionTraceLength ∧
        ctx'.nextTopLevelInstructionIndex = ctx.nextTopLevelInstructionIndex ∨
      LogInv n stackCapacity ctx' configured (log ++ [ctx.nextInvocation]) false ∧
        ¬ (ctx'.getInstructionTraceLength = ctx.getInstructionTraceLength ∧
          ctx'.nextTopLevelInstructionIndex = ctx.nextTopLevelInstructionIndex) := by
  have hn := h.ne_zero huse
  have hcapacity : ctx.leveled.taken.instructionStackCapacity = ctx.instructionStackCapacity :=
    ctx.leveled.taken_instructionStackCapacity
  have hentered := ctx.entered_instructionStack
  have hgrown : ¬ (ctx.leveled.taken.getInstructionTraceLength = ctx.getInstructionTraceLength ∧
      ctx.leveled.taken.nextTopLevelInstructionIndex = ctx.nextTopLevelInstructionIndex) := by
    have hnext := h.trace.next
    have hbounded := h.trace.bounded
    have hlength := h.trace.length
    have hleveled : ctx.leveled.instructionTrace.length = ctx.instructionTrace.length := length_modify ..
    rw [TransactionContext.taken]
    split
    · rintro ⟨-, heq⟩
      have hsucc : ctx.leveled.nextTopLevelInstructionIndex = ctx.nextTopLevelInstructionIndex := rfl
      dsimp only at heq
      rw [satAdd_eq (by omega)] at heq
      omega
    · rintro ⟨heq, -⟩
      simp only [getInstructionTraceLength, length_append, length_singleton] at heq
      omega
  cases houtcome with
  | unbalanced => exact .inl ⟨⟨_, h⟩, rfl, rfl⟩
  | traceFull =>
    refine .inl ⟨⟨_, h.same h.trace.leveled (prefix_refl _) rfl fun hzero => absurd hzero hn⟩, ?_, rfl⟩
    exact ctx.leveled_getInstructionTraceLength
  | tooDeep room =>
    refine .inr ⟨h.taken hn (h.trace.taken huse room) ?_ hcapacity, hgrown⟩
    rw [taken_instructionStack]
    exact prefix_append ..
  | noSysvar room shallow =>
    exact h.taken hn (h.trace.entered huse room shallow) (hentered ▸ prefix_refl _) hcapacity
  | stored room shallow =>
    refine h.taken hn ?_ (hentered ▸ prefix_refl _) hcapacity
    exact { h.trace.entered huse room shallow with }
  | notStored room shallow =>
    refine .inr ⟨h.taken hn ?_ (hentered ▸ prefix_refl _) hcapacity, hgrown⟩
    exact { h.trace.entered huse room shallow with }

omit h

theorem prepare (h : LogInv n stackCapacity ctx configured log false) {instruction : Instruction}
    {program : UInt16} (hresolved : resolveCpi ctx instruction signers = .ok (program, accounts, table))
    (hcaller : ctx.instructionStack.getLast? = some caller)
    (hprepared : PreparedCall ctx ctx' ⟨program, accounts, table, instruction.data⟩ (.ofNat caller)) :
    LogInv n stackCapacity ctx' (configured ++ [⟨program, accounts, table, instruction.data⟩]) log true := by
  obtain ⟨stack, hreplays, hprefix⟩ := h.replays
  have hindex := hcaller
  rw [getLast?_eq_getElem?] at hindex
  have hlt := h.trace.stack_lt hindex
  have hcount := h.trace.count
  have hbottom := h.trace.bottom _ (getElem?_eq_getElem (length_pos_of_mem (mem_of_getLast? hcaller)))
  have hnext := h.trace.next
  have htrace := h.trace.prepare hcaller hprepared
  obtain ⟨_, _, _, rfl, -⟩ := hprepared
  refine ⟨htrace, ⟨stack, hreplays, hprefix⟩, fun c hc => ?_, h.capacity, h.levels, fun hn => ?_⟩
  · rcases mem_append.mp hc with hc | hc
    · exact h.small c hc
    · rw [mem_singleton.mp hc]
      refine Configuration.small_call (fun ic hic => ?_) hresolved
      obtain ⟨index, hcurrent, hic⟩ := except_inv hic
      rw [getCurrentInstructionIndex, hcaller] at hcurrent
      cases hcurrent
      rw [getInstructionContextAtIndexInTrace] at hic
      split at hic
      · cases hic
      · cases hic
        have hlt' : caller < configured.length := by omega
        rw [h.trace.deduplicationMaps, getElem?_map, getElem?_eq_getElem hlt']
        exact (h.small _ (getElem_mem hlt')).table
  · omega

/-- One step of a run keeps the invariant. -/
theorem step {s' : TraceState} (h : LogInv n stackCapacity s.ctx s.configured s.pushed s.prepared)
    (hstep : TraceStep ext (fun s op => op.Disciplined n s) s s') :
    LogInv n stackCapacity s'.ctx s'.configured s'.pushed s'.prepared := by
  have htrace := h.trace.step hstep
  cases hstep with
  | prepare use run resolved =>
    obtain ⟨_, _, _, caller, hresolved, hcaller, hprepared⟩ := prepareNextCpiInstruction_ok run
    cases resolved.symm.trans hresolved
    rw [show s.prepared = false from use] at h
    exact h.prepare resolved hcaller hprepared
  | push use run => exact h.push use (TraceOp.run_push h.trace.trace_ne_nil run)
  | @pop s1 use run =>
    have hkeeps : KeepsTrace s.ctx s1.transactionContext := by
      rw [TraceOp.run_pop run]
      exact keepsTrace_pop _
    exact h.keeps hkeeps htrace
  | work worked => exact h.keeps worked.keepsTrace htrace

theorem start {accounts : List (Pubkey × AccountSharedData)} {rent : Rent} {start : InvokeContext}
    (hbounded : message.instructions.length + traceCapacity ≤ 65536)
    (hstart : (prepareTopLevelInstructions message).run
      ⟨.new accounts rent stackCapacity traceCapacity message.instructions.length, []⟩ = .ok () start) :
    LogInv message.instructions.length stackCapacity start.transactionContext message.configurations [] false := by
  obtain ⟨trace, heq⟩ := (prepareTopLevelFrom_ok hstart).rest
  refine ⟨.start hbounded hstart, ⟨[], .nil, ?_⟩, fun c hc => ?_, by rw [heq]; rfl, by simp, fun hn => ?_⟩
  · rw [heq]
    exact prefix_refl []
  · obtain ⟨instruction, -, rfl⟩ := mem_map.mp hc
    exact Configuration.small_topLevel message instruction
  · rw [prepareTopLevelInstructions, length_eq_zero_iff.mp hn] at hstart
    cases hstart
    rfl

theorem reachable {accounts : List (Pubkey × AccountSharedData)} {rent : Rent}
    (hreach : TraceReachable ext (fun s op => op.Disciplined message.instructions.length s) message accounts rent
      stackCapacity traceCapacity s) (hbounded : message.instructions.length + traceCapacity ≤ 65536) :
    LogInv message.instructions.length stackCapacity s.ctx s.configured s.pushed s.prepared := by
  obtain ⟨start, hstart, hrun⟩ := hreach
  induction hrun with
  | refl => exact .start hbounded hstart
  | tail _ hstep ih => exact ih.step hstep

/-- An operation that fails leaves a trace of the log with what it took. -/
theorem fails {op : TraceOp}
    (h : LogInv n stackCapacity s.ctx s.configured s.pushed s.prepared) (huse : op.Disciplined n s)
    (hrun : (op.run ext).run s.invokeContext = .error fault s') :
    ∃ prepared, LogInv n stackCapacity s'.transactionContext s.configured (s.logAfter s'.transactionContext)
      prepared := by
  obtain hsame | ⟨rfl, e, houtcome⟩ | ⟨rfl, hpop⟩ := op.run_eq_error h.trace.trace_ne_nil hrun
  · rw [hsame, TraceState.logAfter, if_pos ⟨rfl, rfl⟩]
    exact ⟨_, h⟩
  · rcases h.push huse houtcome with ⟨⟨prepared, hinv⟩, hkept⟩ | ⟨hinv, hgrown⟩
    · rw [TraceState.logAfter, if_pos hkept]
      exact ⟨prepared, hinv⟩
    · rw [TraceState.logAfter, if_neg hgrown]
      exact ⟨_, hinv⟩
  · rw [show s.prepared = false from huse] at h
    have hkeeps := keepsTrace_pop s.ctx
    have hlength : (final TransactionContext.pop s.ctx).getInstructionTraceLength =
        s.ctx.getInstructionTraceLength := by
      rw [getInstructionTraceLength, hkeeps.trace, getInstructionTraceLength]
    rw [hpop, TraceState.logAfter, if_pos ⟨hlength, hkeeps.next⟩]
    exact ⟨_, h.keeps hkeeps h.trace.pop⟩

end LogInv

/-- A message is always prepared. -/
theorem prepareTopLevelFrom_not_error {instructions : List SVMInstruction} {s s' : InvokeContext}
    {err : UInt8 × InstructionError}
    (hlength : index + instructions.length ≤ s.transactionContext.instructionTrace.length) :
    (prepareTopLevelFrom message index instructions).run s ≠ .error err s' := by
  induction instructions generalizing index s with
  | nil => exact fun hrun => nomatch hrun
  | cons instruction instructions ih =>
    intro hrun
    rw [length_cons] at hlength
    have hlt : index < s.transactionContext.instructionTrace.length := by omega
    obtain ⟨ctx, hctx, hsame⟩ : ∃ ctx, (configureInstructionAtIndex index
        (.ofNat instruction.programIdIndex.toNat) (resolveTopLevel message instruction).2
        (resolveTopLevel message instruction).1 instruction.data none).run s.transactionContext = .ok () ctx ∧
        ctx.instructionTrace.length = s.transactionContext.instructionTrace.length := by
      simp only [configureInstructionAtIndex, run_bind, run_get, if_pos hlt]
      exact ⟨_, rfl, length_modify ..⟩
    have hzoom : (onTransaction _).run s = _ := run_zoom_ok.mpr ⟨ctx, hctx, rfl⟩
    simp only [prepareTopLevelFrom, run_bind, run_get, hzoom] at hrun
    exact @ih (index + 1) ⟨ctx, s.syscallContext⟩ (by rw [hsame]; omega) hrun

/-- In a transaction whose trace can not outgrow its `u16` indices, and whose stack can
not outgrow the `u8` heights, the calls of a run are recorded wherever it ends: each
once, under the top level instruction at the root of its callers and in the order of
execution, with its program, accounts, data and height, and the heights are those of a
depth first traversal. -/
theorem inner_instructions_recorded {ext : Externals} {message : SVMMessage}
    {accounts : List (Pubkey × AccountSharedData)} {rent : Rent} {stackCapacity traceCapacity : Nat}
    {s : InvokeContext} {configured : List Configuration} {log : List Invocation}
    (hbounded : message.instructions.length + traceCapacity ≤ 65536) (hdepth : stackCapacity < 255)
    (hend : RunEnd ext message accounts rent stackCapacity traceCapacity s configured log) :
    RecordsCalls message.instructions.length configured log s.transactionContext := by
  induction hend with
  | unprepared run =>
    refine absurd run (prepareTopLevelFrom_not_error ?_)
    rw [TransactionContext.new, length_replicate, satAdd_eq (by omega)]
    omega
  | stopped reachable => exact (LogInv.reachable reachable hbounded).recordsCalls hdepth
  | failed reachable use run =>
    obtain ⟨prepared, hinv⟩ := (LogInv.reachable reachable hbounded).fails use run
    exact hinv.recordsCalls hdepth
  | unwound _ ih =>
    rw [final_pop_transactionContext]
    exact ih.keeps (keepsTrace_pop _)
  | worked _ worked ih => exact ih.keeps worked.keepsTrace

/-- A call that fails on the depth of the stack is recorded. -/
theorem inner_instructions_recorded_too_deep : ∃ s : InvokeContext, ∃ log : List Invocation,
    s.transactionContext.instructionStack = [0] ∧ log = [⟨0, 0, none⟩, ⟨1, 1, some 0⟩] ∧
    RecordsCalls 1 (SelfCall.message.configurations ++ [SelfCall.configuration]) log s.transactionContext := by
  have hreach : TraceReachable ext (fun s op => op.Disciplined 1 s) message accounts
      rent 1 64 _ :=
    ⟨start 1 64, rfl, (Relation.ReflTransGen.single (.push (.inr ⟨rfl, by decide⟩) rfl)).tail
      (@TraceStep.prepare _ _ _ instruction [] _ _ _ _ (by rfl) (by rfl) (by rfl))⟩
  exact ⟨_, _, rfl, rfl, inner_instructions_recorded (by decide) (by decide)
    (@RunEnd.failed _ _ _ _ _ _ _ .push _ _ hreach (.inl rfl) rfl)⟩

/-! ## More calls than the counter can count -/

theorem length_recordNext
    (h : recordNext n cpiNum ix r = some r') : r'.outerInstructions.length = r.outerInstructions.length := by
  obtain ⟨⟨outerIndex, r1⟩, hnote, rfl⟩ := Option.map_eq_some_iff.mp h
  have hr1 : r1.outerInstructions = r.outerInstructions := by
    simp only [noteOuterIndex] at hnote
    split at hnote
    · split at hnote
      · cases hnote
        rfl
      · cases hnote
    · cases hnote
      rfl
  rw [← hr1]
  dsimp only [addInner]
  split
  · exact length_set
  · rfl

theorem length_recordFrom
    (h : recordFrom n cpiNum ixs r = some r') : r'.outerInstructions.length = r.outerInstructions.length := by
  induction ixs generalizing cpiNum r with
  | nil =>
    cases h
    rfl
  | cons ix ixs ih =>
    obtain ⟨r1, hnext, h⟩ := Option.bind_eq_some_iff.mp h
    exact (ih h).trans (length_recordNext hnext)

/-- There is one list for each instruction of the trace that is not counted as a call. -/
theorem length_deconstructTransaction (h : deconstructTransaction ctx true = some (some r)) :
    r.outerInstructions.length =
      ctx.getInstructionTraceLength - ctx.transactionFrame.numberOfCpisInTrace.toNat := by
  obtain ⟨r', hr', h⟩ := Option.bind_eq_some_iff.mp h
  cases h
  rw [length_recordFrom hr', length_replicate]

/-- A program makes 65536 calls to itself: the counter of calls stops at 65535, and the
first call counts as an instruction of the message. -/
theorem inner_instructions_miscounted : ∃ s configured log,
    RunEnd SelfCall.ext SelfCall.message SelfCall.accounts SelfCall.rent 5 131072 s configured log ∧
    ¬ RecordsCalls SelfCall.message.instructions.length configured log s.transactionContext := by
  obtain ⟨s, hsteps, hs⟩ := exists_calling 65536
  refine ⟨_, _, _, .stopped ⟨start 5 131072, rfl, hsteps⟩, ?_⟩
  rintro ⟨r, hr, -, hrecorded⟩
  have hlength := length_deconstructTransaction hr
  rw [hrecorded.length, getInstructionTraceLength, hs.length, hs.cpis] at hlength
  exact absurd hlength (by decide)

end Svm
