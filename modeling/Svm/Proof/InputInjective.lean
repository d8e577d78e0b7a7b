import Svm.Proof.SerializedSize

/-!
# The program input is unambiguous

The buffer is the number of accounts, their records and the instruction, one behind the
other (`Serialized.mem_eq`). Two records at the start of equal buffers are equal and end
at the same byte (`recordBytes_inj`): the marker tells a duplicate from an account, and
the length of the data is in front of it. So equal buffers come from instructions that
agree in all that is serialized (`program_input_unambiguous`).
-/

namespace Svm

open Machine Run Bytes Sbpf InstructionContext Layout Repeated UInt64
open List hiding getElem?_eq_some_iff length_tail

variable {accounts : List SerializeAccount} {position : UInt16}

/-! ## Fields -/

theorem toLe_uint64_inj {y : UInt64} (h : toLe 8 x.toNat = toLe 8 y.toNat) : x = y := by
  have hvalue := congrArg ofLe h
  rw [ofLe_toLe_uint64, ofLe_toLe_uint64] at hvalue
  exact UInt64.toNat_inj.mp hvalue

theorem boolByte_inj (h : boolByte b = boolByte b') : b = b' := by
  revert h
  cases b <;> cases b' <;> decide

theorem ofNat_length_inj {m n : Nat} (hm : m < 2 ^ 64) (hn : n < 2 ^ 64) (h : ofNat m = ofNat n) : m = n := by
  have hvalue := congrArg toNat h
  rwa [toNat_ofNat', toNat_ofNat', Nat.mod_eq_of_lt hm, Nat.mod_eq_of_lt hn] at hvalue

theorem pubkey_toList_inj {k' : Pubkey} (h : k.toList = k'.toList) : k = k' := by
  exact Vector.toList_inj.mp h

section Records

variable {l : Layout} {a a' : TransactionAccounts} {hosts : UInt16 → UInt64} {b b' : BorrowedInstructionAccount}

/-- The bytes of an account, or of a duplicate. -/
def SerializeAccount.bytes (l : Layout) (a : TransactionAccounts) : SerializeAccount → List UInt8
  | .Account _ b => l.head b a ++ (l.area (b.getData a) ++ l.tail b a)
  | .Duplicate position => l.duplicate position

/-- Two accounts that have the same record. -/
structure AlikeBorrowed (a a' : TransactionAccounts) (b b' : BorrowedInstructionAccount) : Prop where
  signer : b.isSigner = b'.isSigner
  writable : b.isWritable = b'.isWritable
  account : (b.account a).Alike (b'.account a')

inductive AlikeRecord (a a' : TransactionAccounts) : SerializeAccount → SerializeAccount → Prop
  | account {index index' : UInt16} {b b' : BorrowedInstructionAccount} (alike : AlikeBorrowed a a' b b') :
      AlikeRecord a a' (.Account index b) (.Account index' b')
  | duplicate (position : UInt16) : AlikeRecord a a' (.Duplicate position) (.Duplicate position)

/-- What a head tells of its account. -/
structure AlikeHead (l : Layout) (a a' : TransactionAccounts) (b b' : BorrowedInstructionAccount) : Prop where
  signer : b.isSigner = b'.isSigner
  writable : b.isWritable = b'.isWritable
  key : b.getKey a = b'.getKey a'
  lamports : b.getLamports a = b'.getLamports a'
  length : ofNat (b.getData a).length = ofNat (b'.getData a').length
  aligned : l.isLoaderV1 = false → b.isExecutable a = b'.isExecutable a' ∧ b.getOwner a = b'.getOwner a'

theorem Layout.head_inj (h : l.head b a = l.head b' a') : AlikeHead l a a' b b' := by
  by_cases hv1 : l.isLoaderV1 = true
  · simp only [head, hv1] at h
    obtain ⟨h, hlength⟩ := append_inj' h (by simp)
    obtain ⟨h, hlamports⟩ := append_inj' h (by simp)
    obtain ⟨hflags, hkey⟩ := append_inj' h (by simp)
    simp only [List.cons.injEq] at hflags
    exact ⟨boolByte_inj hflags.2.1, boolByte_inj hflags.2.2.1, pubkey_toList_inj hkey, toLe_uint64_inj hlamports,
      toLe_uint64_inj hlength, fun hv2 => absurd (hv1.symm.trans hv2) (by decide)⟩
  · simp only [head, hv1] at h
    obtain ⟨h, hlength⟩ := append_inj' h (by simp)
    obtain ⟨h, hlamports⟩ := append_inj' h (by simp)
    obtain ⟨h, howner⟩ := append_inj' h (by simp)
    obtain ⟨hflags, hkey⟩ := append_inj' h (by simp)
    simp only [List.cons.injEq] at hflags
    exact ⟨boolByte_inj hflags.2.1, boolByte_inj hflags.2.2.1, pubkey_toList_inj hkey, toLe_uint64_inj hlamports,
      toLe_uint64_inj hlength, fun _ => ⟨boolByte_inj hflags.2.2.2.1, pubkey_toList_inj howner⟩⟩

/-- What the end of a record of ABIv0 tells of its account. -/
theorem Layout.tail_inj (hv1 : l.isLoaderV1 = true) (h : l.tail b a = l.tail b' a') :
    b.isExecutable a = b'.isExecutable a' ∧ b.getOwner a = b'.getOwner a' := by
  simp only [tail, hv1] at h
  obtain ⟨h, -⟩ := append_inj' h (by simp)
  obtain ⟨howner, hexecutable⟩ := append_inj' h (by simp)
  simp only [List.cons.injEq] at hexecutable
  exact ⟨boolByte_inj hexecutable.1, pubkey_toList_inj howner⟩

/-- The data is in the buffer. -/
theorem Layout.area_inj (hout : l.dataOutside = false) (hlength : data.length = data'.length)
    (h : l.area data = l.area data') : data = data' := by
  obtain ⟨padding, hpadding⟩ := l.area_eq data hout
  obtain ⟨padding', hpadding'⟩ := l.area_eq data' hout
  rw [hpadding, hpadding'] at h
  exact (append_inj h hlength).1

/-- The record starts with its marker. -/
theorem Layout.head_marker (l : Layout) (b) (a) :
    ∃ rest, l.head b a = NON_DUP_MARKER :: rest := by
  unfold head
  split
  · exact ⟨_, rfl⟩
  · exact ⟨_, rfl⟩

theorem Layout.duplicate_marker (l : Layout) (position) :
    ∃ rest, l.duplicate position = UInt8.ofNat position.toNat :: rest := by
  unfold duplicate
  split
  · exact ⟨_, rfl⟩
  · exact ⟨_, rfl⟩

/-- The length of the data of an account fits in a word, and a duplicate is not taken for
an account. -/
def SerializeAccount.Plain (a : TransactionAccounts) : SerializeAccount → Prop
  | .Account _ b => (b.getData a).length < 2 ^ 64
  | .Duplicate position => position.toNat < 255

theorem ofNat_position_inj (h : position.toNat < 255) (h' : position'.toNat < 255)
    (heq : UInt8.ofNat position.toNat = UInt8.ofNat position'.toNat) : position = position' := by
  have hvalue := congrArg UInt8.toNat heq
  simp only [UInt8.toNat_ofNat'] at hvalue
  exact UInt16.toNat_inj.mp (by omega)

theorem ofNat_position_ne (h : position.toNat < 255) : NON_DUP_MARKER ≠ UInt8.ofNat position.toNat := by
  intro heq
  have hvalue := congrArg UInt8.toNat heq
  rw [UInt8.toNat_ofNat'] at hvalue
  have hmarker : NON_DUP_MARKER.toNat = 255 := rfl
  omega

/-- Two records at the start of equal buffers tell the same, and end at the same byte. -/
theorem recordBytes_inj (hout : l.dataOutside = false)
    (hx : x.Plain a) (hx' : x'.Plain a') (h : x.bytes l a ++ rest = x'.bytes l a' ++ rest') :
    AlikeRecord a a' x x' ∧ rest = rest' := by
  cases x with
  | Duplicate position =>
    obtain ⟨bytes, hbytes⟩ := l.duplicate_marker position
    cases x' with
    | Duplicate position' =>
      obtain ⟨bytes', hbytes'⟩ := l.duplicate_marker position'
      obtain ⟨hsame, hrest⟩ := append_inj h (by simp only [SerializeAccount.bytes, length_duplicate])
      rw [SerializeAccount.bytes, SerializeAccount.bytes, hbytes, hbytes'] at hsame
      obtain rfl := ofNat_position_inj hx hx' (List.cons.inj hsame).1
      exact ⟨.duplicate position, hrest⟩
    | Account index' b' =>
      obtain ⟨bytes', hbytes'⟩ := l.head_marker b' a'
      rw [SerializeAccount.bytes, SerializeAccount.bytes, hbytes, hbytes'] at h
      exact absurd (List.cons.inj h).1.symm (ofNat_position_ne hx)
  | Account index b =>
    obtain ⟨bytes, hbytes⟩ := l.head_marker b a
    cases x' with
    | Duplicate position' =>
      obtain ⟨bytes', hbytes'⟩ := l.duplicate_marker position'
      rw [SerializeAccount.bytes, SerializeAccount.bytes, hbytes, hbytes'] at h
      exact absurd (List.cons.inj h).1 (ofNat_position_ne hx')
    | Account index' b' =>
      simp only [SerializeAccount.bytes, append_assoc] at h
      obtain ⟨hhead, h⟩ := append_inj h (by rw [length_head, length_head])
      have halike := head_inj hhead
      have hlength : (b.getData a).length = (b'.getData a').length := ofNat_length_inj hx hx' halike.length
      obtain ⟨harea, h⟩ := append_inj h (by rw [length_area, length_area, hlength])
      obtain ⟨htail, hrest⟩ := append_inj h (by rw [length_tail, length_tail])
      have hdata := area_inj hout hlength harea
      have hrecord : b.isExecutable a = b'.isExecutable a' ∧ b.getOwner a = b'.getOwner a' := by
        by_cases hv1 : l.isLoaderV1 = true
        · exact tail_inj hv1 htail
        · exact halike.aligned (Bool.eq_false_of_not_eq_true hv1)
      exact ⟨.account ⟨halike.signer, halike.writable,
        ⟨halike.key, hrecord.1, hrecord.2, halike.lamports, hdata⟩⟩, hrest⟩

/-- The records of two lists of accounts of the same length. -/
theorem records_inj (hout : l.dataOutside = false)
    (hx : ∀ x ∈ accounts, x.Plain a) (hx' : ∀ x ∈ accounts', x.Plain a') (hlength : accounts.length = accounts'.length)
    (h : accounts.flatMap (SerializeAccount.bytes l a) ++ rest = accounts'.flatMap (SerializeAccount.bytes l a') ++ rest') :
    List.Forall₂ (AlikeRecord a a') accounts accounts' ∧ rest = rest' := by
  induction accounts generalizing accounts' with
  | nil =>
    obtain rfl := length_eq_zero_iff.mp hlength.symm
    exact ⟨.nil, h⟩
  | cons x accounts ih =>
    obtain ⟨x', accounts', rfl⟩ := exists_cons_of_length_eq_add_one hlength.symm
    simp only [flatMap_cons, append_assoc] at h
    obtain ⟨hrecord, h⟩ := recordBytes_inj hout (hx x mem_cons_self) (hx' x' mem_cons_self) h
    obtain ⟨hrecords, hrest⟩ := ih (fun y hy => hx y (mem_cons_of_mem _ hy))
      (fun y hy => hx' y (mem_cons_of_mem _ hy)) (Nat.succ.inj hlength) h
    exact ⟨.cons hrecord hrecords, hrest⟩

end Records

/-! ## The whole buffer -/

section Buffer

theorem Serializer.Writes.bytes_eq {s : Serializer} {account : SerializeAccount}
    (h : s.Writes a hosts account m s1) : s1.buffer = s.buffer ++ account.bytes s.layout a := by
  cases h with
  | duplicate => rfl
  | account keeps data =>
    rw [data, buffer_append, putData_buffer, SerializeAccount.bytes]
    simp

theorem Serializer.Written.bytes_eq {s : Serializer} (h : s.Written a hosts accounts metas s') :
    s'.buffer = s.buffer ++ accounts.flatMap (SerializeAccount.bytes s.layout a) := by
  induction h with
  | nil => exact (List.append_nil _).symm
  | cons hhead _ ih => rw [ih, hhead.layout_eq, hhead.bytes_eq, flatMap_cons, append_assoc]

theorem Serialized.mem_eq {features : InputFeatures} {isLoaderV1 : Bool} {size : Nat} {instructionData : List UInt8}
    (h : Serialized a hosts (.new size bufferAddr MM_INPUT_START isLoaderV1 features) accounts
      instructionData programId offset p) : p.mem = toLe 8 (ofNat accounts.length).toNat ++
      (accounts.flatMap (SerializeAccount.bytes (features.layout isLoaderV1) a) ++
        (instructionBytes instructionData programId ++ pointersBytes offset p.accountsMetadata)) := by
  obtain ⟨s1, bytes, hwritten, rfl, -, hmem, -⟩ := h.written
  rw [hmem, hwritten.bytes_eq]
  rfl

theorem instructionBytes_inj {instructionData : List UInt8}
    (h : instructionBytes instructionData programId = instructionBytes instructionData' programId') :
    instructionData = instructionData' ∧ programId = programId' := by
  obtain ⟨h, hprogram⟩ := append_inj' h (by simp)
  obtain ⟨-, hdata⟩ := append_inj h (by simp)
  exact ⟨hdata, pubkey_toList_inj hprogram⟩

end Buffer

section Unambiguous

variable {ext : SerializeExternals} {ic ic' : InstructionContext} {rent rent' : Rent}
  {features features' : InputFeatures} {bufferAddr bufferAddr' : UInt64} {a a' a₁ a₁' : TransactionAccounts}
  {p : SerializedParameters} {isLoaderV1 : Bool}

/-- The first occurrence of an account is no duplicate. -/
theorem InstructionContext.Deduplicated.first (h : ic.Deduplicated)
    (hdup : ic.isInstructionAccountDuplicate index = .ok (some position)) :
    ic.isInstructionAccountDuplicate position = .ok none := by
  have hentry := h index position hdup
  simp only [isInstructionAccountDuplicate, getIndexOfInstructionAccountInTransaction, instructionAccountAt, hentry]
    at hdup ⊢
  obtain ⟨indexInTransaction, hindex, hdup⟩ := except_inv hdup
  obtain ⟨first, hfirst, hdup⟩ := except_inv hdup
  rw [hindex]
  show (ic.getIndexOfAccountInInstruction indexInTransaction >>= fun first =>
    pure (if first = position then none else some first)) = .ok none
  rw [hfirst]
  by_cases hsame : first = index
  · rw [if_pos hsame] at hdup
    cases hdup
  · rw [if_neg hsame] at hdup
    cases hdup
    simp [bind, Except.bind, pure, Except.pure]

namespace Serializes

variable (h : Serializes ext.toExternals ic rent features isLoaderV1 bufferAddr a p accounts a₁)

include h

theorem first_mem (hindex : index ∈ ic.indices)
    (hdup : ic.isInstructionAccountDuplicate index = .ok (some position)) : position ∈ ic.indices := by
  obtain ⟨k, hk⟩ := mem_iff_getElem?.mp hindex
  obtain ⟨x, hx, hcollects⟩ := h.collected_at hk
  obtain ⟨programId, -, hser⟩ := h.serialized
  cases hcollects with
  | account hdup' =>
    rw [hdup] at hdup'
    cases hdup'
  | duplicate hdup' =>
    obtain rfl : position = _ := by simpa using hdup.symm.trans hdup'
    have hlt := (hser.repeated k position hx).1
    have hk' := (getElem?_eq_some_iff.mp hk).1
    rw [length_indices] at hk'
    exact mem_map.mpr ⟨position.toNat, mem_range.mpr (by omega), UInt16.ofNat_toNat⟩

/-- The records of an instruction can be told apart. -/
theorem plain (hcountable : ic.Countable a) : ∀ x ∈ accounts, x.Plain a := by
  intro x hx
  obtain ⟨k, hk⟩ := mem_iff_getElem?.mp hx
  have hlt : k < accounts.length := (getElem?_eq_some_iff.mp hk).1
  have hlength : accounts.length = ic.indices.length := h.collects.length_eq.symm
  obtain ⟨x', hx', hcollects⟩ := h.collected_at (getElem?_eq_getElem (hlength ▸ hlt))
  obtain rfl : x = x' := Option.some.inj (hk.symm.trans hx')
  cases hcollects with
  | @duplicate position hdup =>
    obtain ⟨programId, -, hser⟩ := h.serialized
    have hposition := (hser.repeated k position hk).1
    have hfew : ic.indices.length ≤ 255 := h.few
    show position.toNat < 255
    omega
  | @account ia hdup hia hrange hfree => exact hcountable ia (mem_of_getElem? hia)

theorem mem_eq (hpointers : features.directAccountPointersInProgramInput = false) :
    ∃ programId, ic.getProgramKey a = .ok programId ∧ p.mem = toLe 8 (ofNat accounts.length).toNat ++
        (accounts.flatMap (SerializeAccount.bytes (features.layout isLoaderV1) a) ++
          instructionBytes ic.instructionData programId) := by
  obtain ⟨programId, hkey, hser⟩ := h.serialized
  refine ⟨programId, hkey, ?_⟩
  rw [hser.mem_eq, pointersOffset, if_neg (by simp [hpointers]), pointersBytes, append_nil]

/-- Two instructions with the same buffer in the same layout. -/
theorem sameInput (h' : Serializes ext.toExternals ic' rent' features' isLoaderV1 bufferAddr' a' p' accounts' a₁')
    (hout : features.dataOutside = false) (hout' : features'.dataOutside = false)
    (hpointers : features.directAccountPointersInProgramInput = false)
    (hpointers' : features'.directAccountPointersInProgramInput = false) (hcountable : ic.Countable a)
    (hcountable' : ic'.Countable a') (hmem : p.mem = p'.mem) : SameInput ic ic' a a' := by
  obtain ⟨programId, hkey, hbuffer⟩ := h.mem_eq hpointers
  obtain ⟨programId', hkey', hbuffer'⟩ := h'.mem_eq hpointers'
  have hlayout : features'.layout isLoaderV1 = features.layout isLoaderV1 := by
    rw [InputFeatures.layout, InputFeatures.layout, hout, hout']
  rw [hbuffer, hbuffer', hlayout] at hmem
  obtain ⟨hcount, hmem⟩ := append_inj hmem (by rw [length_toLe, length_toLe])
  have hfew : accounts.length ≤ 255 := h.collects.length_eq ▸ h.few
  have hfew' : accounts'.length ≤ 255 := h'.collects.length_eq ▸ h'.few
  have hlength : accounts.length = accounts'.length :=
    ofNat_length_inj (by omega) (by omega) (toLe_uint64_inj hcount)
  obtain ⟨hrecords, hinstruction⟩ := records_inj hout (h.plain hcountable) (h'.plain hcountable') hlength hmem
  obtain ⟨hdata, rfl⟩ := instructionBytes_inj hinstruction
  have hnumber : ic.getNumberOfInstructionAccounts = ic'.getNumberOfInstructionAccounts := by
    refine UInt16.toNat_inj.mp ?_
    rw [← length_indices, ← length_indices, h.collects.length_eq, h'.collects.length_eq, hlength]
  have hindices : ic.indices = ic'.indices := by rw [indices, indices, hnumber]
  -- What both instructions have at an index.
  have hat : ∀ index ∈ ic.indices,
      (∃ position, ic.isInstructionAccountDuplicate index = .ok (some position) ∧
        ic'.isInstructionAccountDuplicate index = .ok (some position)) ∨
      ic.isInstructionAccountDuplicate index = .ok none ∧ ic'.isInstructionAccountDuplicate index = .ok none ∧
        AlikeAt ic ic' a a' index := by
    intro index hindex
    obtain ⟨k, hk⟩ := mem_iff_getElem?.mp hindex
    obtain ⟨x, hx, hcollects⟩ := h.collected_at hk
    obtain ⟨x', hx', hcollects'⟩ := h'.collected_at (hindices ▸ hk)
    obtain ⟨hlt, hget⟩ := getElem?_eq_some_iff.mp hx
    obtain ⟨hlt', hget'⟩ := getElem?_eq_some_iff.mp hx'
    have halike : AlikeRecord a a' x x' := hget ▸ hget' ▸ hrecords.get hlt hlt'
    cases halike with
    | duplicate position =>
      cases hcollects with
      | duplicate hdup =>
        cases hcollects' with
        | duplicate hdup' => exact .inl ⟨position, hdup, hdup'⟩
    | account alike =>
      cases hcollects with
      | account hdup hia =>
        cases hcollects' with
        | account hdup' hia' =>
          exact .inr ⟨hdup, hdup', _, _, hia, hia', alike.signer, alike.writable, alike.account⟩
  have haccount : ∀ index ∈ ic.indices, ic.isInstructionAccountDuplicate index = .ok none →
      AlikeAt ic ic' a a' index := by
    intro index hindex hfirst
    rcases hat index hindex with ⟨_, hdup, -⟩ | ⟨-, -, halike⟩
    · cases hdup.symm.trans hfirst
    · exact halike
  refine ⟨hnumber, fun index hindex => ?_, haccount, fun hdedup hdedup' index hindex => ?_, hdata, hkey.trans hkey'.symm⟩
  · rcases hat index hindex with ⟨_, hdup, hdup'⟩ | ⟨hdup, hdup', -⟩
    · rw [hdup, hdup']
    · rw [hdup, hdup']
  · rcases hat index hindex with ⟨position, hdup, hdup'⟩ | ⟨-, -, halike⟩
    · have halike := haccount position (h.first_mem hindex hdup) (hdedup.first hdup)
      rwa [AlikeAt, hdedup index position hdup, hdedup' index position hdup'] at halike
    · exact halike

end Serializes

/-- Two instructions of programs with the same layout whose program inputs are equal, with
the data of the accounts in the buffer and without pointers, agree in all of it. -/
theorem program_input_unambiguous
    (hrun : (serializeParameters ext ic rent features bufferAddr).run a = .ok p a₁)
    (hrun' : (serializeParameters ext ic' rent' features' bufferAddr').run a' = .ok p' a₁')
    (habi : result ic.getProgramOwner a = .ok ext.bpfLoaderDeprecatedId ↔
      result ic'.getProgramOwner a' = .ok ext.bpfLoaderDeprecatedId)
    (hout : features.dataOutside = false) (hout' : features'.dataOutside = false)
    (hpointers : features.directAccountPointersInProgramInput = false)
    (hpointers' : features'.directAccountPointersInProgramInput = false) (hcountable : ic.Countable a)
    (hcountable' : ic'.Countable a') (hmem : p.mem = p'.mem) : SameInput ic ic' a a' := by
  obtain ⟨owner, accounts, howner, h⟩ := serializeParameters_ok hrun
  obtain ⟨owner', accounts', howner', h'⟩ := serializeParameters_ok hrun'
  obtain ⟨_, hreads, -⟩ := run_getProgramOwner howner
  obtain ⟨_, hreads', -⟩ := run_getProgramOwner howner'
  rw [result, result, hreads, hreads', Except.ok.injEq, Except.ok.injEq] at habi
  rw [show decide (owner' = ext.bpfLoaderDeprecatedId) = decide (owner = ext.bpfLoaderDeprecatedId) from
    decide_eq_decide.mpr habi.symm] at h'
  exact h.sameInput h' hout hout' hpointers hpointers' hcountable hcountable' hmem

end Unambiguous

namespace Repeated

/-- The accounts of the instruction, with another balance of its program. -/
def otherAccounts : TransactionAccounts :=
  .new [(.replicate 32 4, ⟨2, ⟨[], false, 0⟩, .replicate 32 3, true, 0⟩),
    (.replicate 32 5, ⟨7, ⟨[1, 2, 3], false, 0⟩, .replicate 32 4, false, 0⟩)]

/-- The program input with these accounts, in a buffer at another address. -/
def otherInput : EStateM.Result Fault TransactionAccounts SerializedParameters :=
  (serializeParameters ext ic rent features 8192).run otherAccounts

/-- The instruction, with a flag of its duplicate that the first occurrence does not have. -/
def otherFlags : InstructionContext :=
  { ic with instructionAccounts := ic.instructionAccounts.modify 1 fun ia => { ia with isSigner := !ia.isSigner } }

/-- Two program inputs have the same bytes. -/
def sameMem : (x y : EStateM.Result Fault TransactionAccounts SerializedParameters) → Bool
  | .ok p _, .ok p' _ => p.mem = p'.mem
  | _, _ => false

theorem of_sameMem (h : sameMem x y = true) :
    ∃ p a p' a', x = .ok p a ∧ y = .ok p' a' ∧ p.mem = p'.mem := by
  cases x with
  | error e a => cases h
  | ok p a =>
    cases y with
    | error e a' => cases h
    | ok p' a' => exact ⟨p, a, p', a', rfl, rfl, of_decide_eq_true h⟩

end Repeated

theorem program_input_unambiguous_repeated :
    ∃ p a₁ p' a₁', Repeated.input = .ok p a₁ ∧ Repeated.otherInput = .ok p' a₁' ∧ p.mem = p'.mem ∧
      SameInput Repeated.ic Repeated.ic Repeated.accounts Repeated.otherAccounts := by
  obtain ⟨p, a₁, p', a₁', h, h', hmem⟩ :=
    of_sameMem (by decide +kernel : sameMem Repeated.input Repeated.otherInput = true)
  exact ⟨p, a₁, p', a₁', h, h', hmem, program_input_unambiguous h h' (by decide +kernel) rfl rfl rfl rfl
    (by unfold InstructionContext.Countable; decide +kernel)
    (by unfold InstructionContext.Countable; decide +kernel) hmem⟩

/-- The flags of a duplicate are not in the program input. -/
theorem program_input_without_duplicate_flags :
    ∃ p a₁ p' a₁', Repeated.input = .ok p a₁ ∧
      (serializeParameters Repeated.ext Repeated.otherFlags Repeated.rent Repeated.features 4096).run
        Repeated.accounts = .ok p' a₁' ∧ p.mem = p'.mem ∧
      Repeated.ic.isInstructionAccountSigner 1 ≠ Repeated.otherFlags.isInstructionAccountSigner 1 := by
  obtain ⟨p, a₁, p', a₁', h, h', hmem⟩ := of_sameMem (by decide +kernel : sameMem Repeated.input
    ((serializeParameters Repeated.ext Repeated.otherFlags Repeated.rent Repeated.features 4096).run
      Repeated.accounts) = true)
  exact ⟨p, a₁, p', a₁', h, h', hmem, by decide⟩

end Svm
