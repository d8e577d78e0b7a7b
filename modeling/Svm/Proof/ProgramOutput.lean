import Svm.Framework.Observe
import Svm.Proof.Lamports
import Svm.Proof.Ledger
import Svm.Proof.Push
import Svm.Proof.Serialization

/-!
# What a program leaves in its buffer

What a program has done is read back from the buffer it leaves behind, whatever its bytes
are. `Permitted`, a preorder, is followed from one effect on a borrowed account to the
whole buffer (`program_output_permitted`).
-/

namespace Svm

open Run Ledger TransactionAccounts

variable {ic : InstructionContext} {a a' a'' : TransactionAccounts} {b : BorrowedInstructionAccount}

/-- What an instruction may make of the accounts: those it may not write stay, each goes as
its program may, and the recorded delta follows the sum of the lamports. -/
structure Permitted (ic : InstructionContext) (a a' : TransactionAccounts) : Prop where
  len : a'.len = a.len
  key (i : UInt16) : a'.accountKey i = a.accountKey i
  notWritable (i : UInt16) : ic.NotWritable i →
    a'.fieldsAt i = a.fieldsAt i ∧ (a'.view i).rentEpoch = (a.view i).rentEpoch
  may (program : Pubkey) (i : UInt16) : ic.Runs a program →
    ProgramMay program (a.fieldsAt i) (a'.fieldsAt i)
  lamports : a'.lamportsDelta - a.lamportsDelta = a'.totalLamports - a.totalLamports

/-! ## One effect -/

theorem Ledger.ProgramMay.trans (h : ProgramMay program f f') (h' : ProgramMay program f' f'') :
    ProgramMay program f f'' := by
  refine ⟨fun ho => ?_, fun hne => ?_⟩
  · obtain ⟨hdata, howner, hexecutable, hle⟩ := h.notOwned ho
    obtain ⟨hdata', howner', hexecutable', hle'⟩ := h'.notOwned (howner ▸ ho)
    exact ⟨hdata'.trans hdata, howner'.trans howner, hexecutable'.trans hexecutable, UInt64.le_trans hle hle'⟩
  · by_cases hsame : f'.owner = f.owner
    · exact h'.assigned (hsame ▸ hne)
    · -- the program gave the account away, and can not write it any more
      have howned : f.owner = program := by
        by_contra ho
        exact hsame (h.notOwned ho).2.1
      rw [(h'.notOwned (howned ▸ hsame)).1]
      exact h.assigned hsame

namespace Permitted

theorem refl (ic) (a) : Permitted ic a a :=
  ⟨rfl, fun _ => rfl, fun _ _ => ⟨rfl, rfl⟩, fun _ _ _ => .refl .., by omega⟩

theorem trans (h : Permitted ic a a') (h' : Permitted ic a' a'') : Permitted ic a a'' := by
  refine ⟨h'.len.trans h.len, fun i => (h'.key i).trans (h.key i), fun i hi => ?_, fun program i hprogram => ?_, ?_⟩
  · obtain ⟨hfields, hepoch⟩ := h.notWritable i hi
    obtain ⟨hfields', hepoch'⟩ := h'.notWritable i hi
    exact ⟨hfields'.trans hfields, hepoch'.trans hepoch⟩
  · exact (h.may program i hprogram).trans (h'.may program i ((h.key _).trans hprogram))
  · have := h.lamports
    have := h'.lamports
    omega

/-- Borrowing an account, and giving it back. -/
theorem of_quiet (h : Quiet a a') (hdata : ∀ i, (a'.view i).data = (a.view i).data) : Permitted ic a a' := by
  have hview (i : UInt16) : (a'.view i).key = (a.view i).key ∧ a'.fieldsAt i = a.fieldsAt i ∧
      (a'.view i).rentEpoch = (a.view i).rentEpoch := by
    have hi := hdata i
    obtain ⟨p, n, e, -⟩ := h.slot i
    simp only [fieldsAt, TransactionAccountView.fields]
    rw [hi]
    simp only [view, e]
    exact ⟨rfl, rfl, rfl⟩
  refine ⟨h.len_eq, fun i => by rw [accountKey_eq, accountKey_eq, h.len_eq, (hview i).1], fun i _ => (hview i).2,
    fun program i _ => ?_, ?_⟩
  · rw [(hview i).2.1]
    exact .refl ..
  · rw [h.lamportsDelta, show a'.totalLamports = a.totalLamports from h.sum_eq quietMeasure_lamports]
    omega

/-- A write to a slot beside its account. -/
theorem modifySlot {f : AccountSlot → AccountSlot} (hf : ∀ s, (f s).view = s.view) (i) :
    Permitted ic a (a.modifySlot i f) := by
  refine .of_quiet (quiet_modifySlot fun _ => ?_) fun j => ?_
  · have hquiet := QuietSlot.refl (a.slot i)
    unfold QuietSlot at hquiet ⊢
    rwa [hf]
  · rw [view_modifySlot_eq a fun _ => hf _]

end Permitted

/-- The borrow is of an account of the instruction. -/
structure BorrowedInstructionAccount.Of (b : BorrowedInstructionAccount) (ic : InstructionContext)
    (a : TransactionAccounts) : Prop where
  mem : b.instructionAccount ∈ ic.instructionAccounts
  program : b.indexInTransactionOfInstructionProgram = ic.programAccountIndexInTx
  inRange : b.getIndexInTransaction.toNat < a.len

theorem BorrowedInstructionAccount.Effect.permitted (hb : b.Of ic a) (h : b.Effect a a') : Permitted ic a a' := by
  have hrespects := h.respects hb.inRange hb.mem (congrArg a.accountKey hb.program)
  refine ⟨h.len_eq, h.accountKey_eq hb.inRange,
    fun i hnot => ⟨congrArg _ (hrespects.notWritable i hnot), congrArg _ (hrespects.notWritable i hnot)⟩,
    fun program i hkey => ⟨fun hne => hrespects.notOwned i ?_, fun hne => ?_⟩, h.lamports_eq hb.inRange⟩
  · rw [hkey]
    exact fun howned => hne (Option.some.inj howned).symm
  · rw [show (a'.fieldsAt i).data = (a.fieldsAt i).data from h.data_of_owner hb.inRange hne]
    exact hrespects.owner i hne

/-! ## The output -/

section Output

variable {rent : Rent} {features : InputFeatures} {buffer : List UInt8}

theorem compositional_permitted (ic) : Compositional fun α (x : AccountsM α) => Along (Permitted ic) x :=
  Along.compositional (.refl ic) .trans

/-- The program, run with the borrow, is permitted. -/
abbrev PermittedWith {α : Type} (ic : InstructionContext) (b : BorrowedInstructionAccount) (x : AccountsM α) : Prop :=
  Along (fun a a' => b.Of ic a → Permitted ic a a') x

theorem compositional_permittedWith (ic) (b) : Compositional fun α (x : AccountsM α) => PermittedWith ic b x :=
  Along.compositional (fun a _ => .refl ic a) fun h h' hb =>
    (h hb).trans (h' ⟨hb.mem, hb.program, (h hb).len ▸ hb.inRange⟩)

theorem permittedWith_op (op : AccountOp) : PermittedWith ic b (op.run b) :=
  fun _ hb => (op.effect hb.inRange).permitted hb

theorem permittedWith_get : PermittedWith ic b get := fun a _ => .refl ic a

theorem permittedWith_updateLamports (lamports) : PermittedWith ic b (updateLamports b lamports) :=
  have hP := compositional_permittedWith ic b
  hP.bind permittedWith_get fun _ => hP.ite (permittedWith_op (.setLamports lamports)) (hP.pure ())

theorem permittedWith_updateOwner (owner) : PermittedWith ic b (updateOwner b owner) :=
  have hP := compositional_permittedWith ic b
  hP.bind permittedWith_get fun _ => hP.ite (permittedWith_op (.setOwner owner)) (hP.pure ())

theorem permittedWith_updateInlineData (data) : PermittedWith ic b (updateInlineData b data) := by
  have hP := compositional_permittedWith ic b
  refine hP.bind permittedWith_get fun a => ?_
  cases b.canDataBeResized a data.length with
  | ok u => exact permittedWith_op (.setDataFromSlice data)
  | error e => exact hP.ite (hP.ofExcept (.error e)) (hP.pure ())

theorem permittedWith_deserializeData (start len) :
    PermittedWith ic b (deserializeData features b buffer start len) := by
  have hP := compositional_permittedWith ic b
  refine hP.bind permittedWith_get fun a => hP.ite ?_ (hP.ite ?_ (hP.ite ?_ (hP.pure ())))
  · exact hP.bind (hP.ofExcept _) permittedWith_updateInlineData
  · exact hP.bind (hP.ofExcept _) fun data => permittedWith_op (.setDataFromSlice data)
  · exact permittedWith_op (.setDataLength len)

theorem permittedWith_deserializeAccountForAbiv0 (preLen start) :
    PermittedWith ic b (deserializeAccountForAbiv0 features buffer preLen start b) := by
  have hP := compositional_permittedWith ic b
  refine hP.bind (hP.ofExcept _) fun lamports => hP.bind (permittedWith_updateLamports lamports) fun _ => ?_
  exact hP.bind (permittedWith_deserializeData _ _) fun _ => hP.pure _

theorem permittedWith_deserializeAccountForAbiv1 (preLen start) :
    PermittedWith ic b (deserializeAccountForAbiv1 features buffer preLen start b) := by
  have hP := compositional_permittedWith ic b
  refine hP.bind (hP.ofExcept _) fun owner => hP.bind (hP.ofExcept _) fun lamports => ?_
  refine hP.bind (permittedWith_updateLamports lamports) fun _ => hP.bind (hP.ofExcept _) fun len => ?_
  refine hP.ite (hP.ofExcept (.error _)) (hP.bind (permittedWith_deserializeData _ _) fun _ => ?_)
  exact hP.bind (permittedWith_updateOwner owner) fun _ => hP.pure _

theorem permitted_withBorrowed (index) {body : BorrowedInstructionAccount → AccountsM α}
    (hbody : ∀ b, PermittedWith ic b (body b)) : Along (Permitted ic) (withBorrowed ic rent index body) := by
  intro a
  rw [withBorrowed, final_bind]
  obtain ⟨e, he⟩ | ⟨ia, hia, hi, -, he⟩ := ic.tryBorrowInstructionAccount_cases rent index a
  · rw [he]
    exact .refl ic a
  · rw [he]
    simp only [final_bind, run_attempt, EStateM.run_modify, final_ofExcept]
    have hborrowed := hbody (ic.borrowed rent ia) (a.takeBorrow ia.indexInTransaction)
      ⟨List.mem_of_getElem? hia, rfl, by simpa using hi⟩
    have htake : Permitted ic a (a.takeBorrow ia.indexInTransaction) := .modifySlot (fun _ => by rfl) _
    exact (htake.trans hborrowed).trans (.of_quiet (quiet_releaseBorrowMut ..) fun _ => data_releaseBorrowMut ..)

theorem permitted_deserializeAccounts (duplicateLen)
    {deserializeAccount : Nat → Nat → BorrowedInstructionAccount → AccountsM Nat}
    (haccount : ∀ preLen start b, PermittedWith ic b (deserializeAccount preLen start b)) (items) (start) :
    Along (Permitted ic) (deserializeAccounts ic rent duplicateLen deserializeAccount items start) := by
  have hP := compositional_permitted ic
  induction items generalizing start with
  | nil => exact hP.pure ()
  | cons item rest ih =>
    refine hP.bind (hP.ofExcept _) fun duplicate => ?_
    cases duplicate with
    | some _ => exact ih _
    | none => exact hP.bind (permitted_withBorrowed item.1 (haccount item.2 _)) ih

theorem permitted_getProgramOwner : Along (Permitted ic) ic.getProgramOwner := by
  have hP := compositional_permitted ic
  refine hP.bind (hP.ofExcept _) fun index => hP.bind (fun a => ?_) fun _ a => ?_
  · rw [final]
    obtain ⟨e, he⟩ | ⟨-, -, -, he⟩ := tryBorrow_cases a index
    · rw [he]
      exact .refl ic a
    · rw [he]
      exact .modifySlot (fun _ => by rfl) index
  · exact .modifySlot (fun _ => by rfl) index

/-- Whatever bytes a program leaves in its buffer, and whether they are accepted or not, the
accounts are changed only as the instruction and its program may change them. -/
theorem program_output_permitted (ext : SerializeExternals) (ic : InstructionContext) (rent : Rent)
    (features : InputFeatures) (buffer : List UInt8) (accountsMetadata : List SerializedAccountMetadata)
    (a : TransactionAccounts) :
    Permitted ic a (final (deserializeParameters ext ic rent features buffer accountsMetadata) a) := by
  have hP := compositional_permitted ic
  refine hP.bind permitted_getProgramOwner (fun owner => hP.ite ?_ ?_) a
  · exact permitted_deserializeAccounts 0 (fun _ _ _ => permittedWith_deserializeAccountForAbiv0 _ _) _ _
  · exact permitted_deserializeAccounts 7 (fun _ _ _ => permittedWith_deserializeAccountForAbiv1 _ _) _ _

end Output

end Svm
