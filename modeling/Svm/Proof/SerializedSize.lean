import Svm.Proof.Serialization

/-!
# The size of the program input

The first pass computes the size of the buffer, the second one writes it. A record has
the size that was computed for it (`SerializeAccount.size_eq`), and as long as the buffer
has room for the records to come, no write fails (`writeAccount_succeeds`). So the second
pass fills the buffer to the last byte; what can stop it is a duplicate that does not
repeat an earlier account, and then there is room left (`serialized_size_exact`).
-/

namespace Svm

open Machine Run Bytes Sbpf EStateM InputFeatures SerializeAccount Serializing List
open Layout hiding dataOutside
open Serializer hiding layout

variable {isLoaderV1 : Bool}

/-! ## Sizes -/

section Sizes

variable {s : Serializer} {accounts : List SerializeAccount}

/-- The size of an account in the first pass is the length of its record. -/
theorem SerializeAccount.size_eq (isLoaderV1 dataOutside : Bool) (a) (account : SerializeAccount) :
    account.size isLoaderV1 dataOutside a = (⟨isLoaderV1, dataOutside⟩ : Layout).recordLen (account.entry a) := by
  cases account with
  | Duplicate position => rfl
  | Account index b =>
    simp only [size, entry, recordLen, dataAt, lenAt, lamportsAt, keyAt, areaLen]
    cases isLoaderV1 <;> cases dataOutside <;> simp only [Bool.false_eq_true, if_false, if_true] <;> omega

/-- The lengths of the records of some accounts. -/
def recordsLen (l : Layout) (a : TransactionAccounts) (accounts : List SerializeAccount) : Nat :=
  (accounts.map fun account => l.recordLen (account.entry a)).sum

theorem recordsLen_cons (l) (account) :
    recordsLen l a (account :: accounts) = l.recordLen (account.entry a) + recordsLen l a accounts := rfl

theorem serializedSize_eq (isLoaderV1 dataOutside : Bool) (instructionData) :
    serializedSize isLoaderV1 dataOutside a accounts instructionData =
      8 + recordsLen ⟨isLoaderV1, dataOutside⟩ a accounts + (8 + instructionData.length + 32) := by
  rw [serializedSize, recordsLen, map_congr_left fun account _ => account.size_eq isLoaderV1 dataOutside a]

theorem Serializer.Written.length_buffer (h : s.Written a hosts accounts metas s') :
    s'.buffer.length = s.buffer.length + recordsLen s.layout a accounts := by
  induction h with
  | nil => rfl
  | cons hhead _ ih =>
    obtain ⟨bytes, hbytes, hlength⟩ := hhead.buffer_eq
    rw [ih, hhead.layout_eq, hbytes, length_append, recordsLen_cons]
    omega

theorem length_instructionBytes (instructionData) (programId) :
    (instructionBytes instructionData programId).length = 8 + instructionData.length + 32 := by
  simp [instructionBytes, add_assoc]

theorem length_pointersBytes (offset) (metas) :
    (pointersBytes offset metas).length = (offset.map (· + metas.length * 8)).getD 0 := by
  cases offset with
  | none => rfl
  | some n => simp [pointersBytes]

end Sizes

/-! ## Writes that do not fail -/

section Succeeds

variable {st st' : Serializing} {ext : Externals} {b : BorrowedInstructionAccount} {size : Nat} {α : Type}

/-- In a buffer of `size` bytes there is room for `n` bytes more, and the open region
starts in what is written. -/
structure Serializer.Room (size : Nat) (s : Serializer) (n : Nat) : Prop where
  start : s.regionStart ≤ s.buffer.length
  capacity : s.capacity = size
  room : s.buffer.length + n ≤ size

/-- The program returns a value. -/
def Succeeds {ε σ α : Type} (x : EStateM ε σ α) (s : σ) : Prop := ∃ r s', x.run s = .ok r s'

theorem Succeeds.step {f : α → EStateM ε σ β}
    (hx : x.run s = .ok r s') : Succeeds (f r) s' → Succeeds (x >>= f) s := by
  rintro ⟨r', s'', hrun⟩
  exact ⟨r', s'', run_bind_ok.mpr ⟨r, s', hx, hrun⟩⟩

theorem Succeeds.bind {f : α → EStateM ε σ β} {s : σ} :
    Succeeds x s → (∀ r s', x.run s = .ok r s' → Succeeds (f r) s') → Succeeds (x >>= f) s
  | ⟨r, s', hrun⟩, hf => .step hrun (hf r s' hrun)

theorem Succeeds.pure (a : α) (s : σ) : Succeeds (pure a : EStateM ε σ α) s := ⟨a, s, rfl⟩

theorem Succeeds.writeAll {f : UInt64 → SerializeM α}
    (h : Succeeds (f st.serializer.nextVaddr) (st.put (st.serializer.append value))) :
    Succeeds (writeAll value >>= f) st := h

theorem fillWrite_succeeds (h : st.serializer.buffer.length + num ≤ st.serializer.capacity) :
    Succeeds (fillWrite num 0) st := by
  refine ⟨(), st.put (st.serializer.append (zeros num)), ?_⟩
  simp only [fillWrite, run_bind, run_get, if_pos h]
  rfl

theorem pushRegion_succeeds (h : st.serializer.regionStart ≤ st.serializer.buffer.length) :
    Succeeds pushRegion st := by
  refine ⟨(), st.put st.serializer.closeRegion, ?_⟩
  simp only [pushRegion, run_bind, run_get, if_pos h]
  rfl

theorem writePadding_succeeds
    (h : st.serializer.isLoaderV1 = false → st.serializer.buffer.length + num ≤ st.serializer.capacity) :
    Succeeds (writePadding num) st := by
  refine .step rfl ?_
  split
  · exact .pure _ _
  · rename_i hv1
    exact fillWrite_succeeds (h (Bool.eq_false_of_not_eq_true hv1))

theorem writeMappedData_succeeds
    (h : st.serializer.buffer.length + (st.serializer.mappedData (b.getData st.accounts)).length ≤
      st.serializer.capacity) : Succeeds (writeMappedData b) st := by
  refine .step rfl ?_
  split
  · exact .pure _ _
  · rename_i hdm
    refine .step (run_writeAll _) (writePadding_succeeds fun hv1 => ?_)
    rw [mappedData, if_neg hdm] at h
    have hv1 : st.serializer.isLoaderV1 = false := hv1
    rw [hv1, if_neg Bool.false_ne_true, length_append, length_zeros] at h
    simp only [put_serializer, buffer_append, length_append]
    exact (add_assoc _ _ _).trans_le h

/-- Getting the data of an account that may be changed does not fail. -/
theorem getDataMut_succeeds (hi : b.getIndexInTransaction.toNat < a.len)
    (hchange : b.canDataBeChanged a = .ok u) : Succeeds b.getDataMut a := by
  refine .step rfl ?_
  refine .step (run_ofExcept_eq_ok.mpr ⟨hchange, rfl⟩) ?_
  exact .step (b.run_touch hi) (.step b.run_makeDataMut ⟨_, _, b.run_modifyAccount _⟩)

theorem createMemoryRegionOfAccount_succeeds (ext) (hi : b.getIndexInTransaction.toNat < a.len)
    (vaddr) : Succeeds (createMemoryRegionOfAccount ext b vaddr) a := by
  refine .step rfl ?_
  cases hchange : b.canDataBeChanged a with
  | error e => exact .pure _ _
  | ok _ =>
    dsimp only
    split
    · exact .pure _ _
    · exact .bind (getDataMut_succeeds hi hchange) fun _ _ _ => .step rfl (.pure _ _)

theorem pushReservedRegion_succeeds (hi : b.getIndexInTransaction.toNat < st.accounts.len)
    (h : st.serializer.regionStart ≤ st.serializer.buffer.length) : Succeeds (pushReservedRegion ext b reserved) st := by
  refine .step rfl ?_
  split
  · exact .pure _ _
  · split
    · refine .step rfl ?_
      refine .bind ?_ fun _ _ _ => ⟨_, _, rfl⟩
      obtain ⟨region, a, hrun⟩ := createMemoryRegionOfAccount_succeeds ext hi st.serializer.vaddr
      exact ⟨region, { st with accounts := a }, run_mapError_ok.mpr (run_zoom_ok.mpr ⟨a, hrun, rfl⟩)⟩
    · exact .bind (pushRegion_succeeds h) fun _ _ _ => .step rfl ⟨_, _, rfl⟩

theorem writeMappedPadding_succeeds (h : st.serializer.isLoaderV1 = false → st.serializer.buffer.length +
      (if st.serializer.features.accountDataDirectMapping then BPF_ALIGN_OF_U128
        else alignOffset (b.getData st.accounts).length) ≤ st.serializer.capacity) :
    Succeeds (writeMappedPadding b) st := by
  refine .step rfl ?_
  split
  · exact .pure _ _
  · rename_i hv1
    have hroom := h (Bool.eq_false_of_not_eq_true hv1)
    split
    · rename_i hdm
      rw [if_pos hdm] at hroom
      exact .bind (fillWrite_succeeds hroom) fun _ _ _ => ⟨_, _, rfl⟩
    · rename_i hdm
      rw [if_neg hdm] at hroom
      exact fillWrite_succeeds hroom

/-- The bytes of a mapped account: its data up to the end of its region, and the padding. -/
theorem length_mapped_area (s : Serializer) (data) (h : s.features.virtualAddressSpaceAdjustments = true) :
    (s.mappedData data).length + (if s.isLoaderV1 then 0 else if s.features.accountDataDirectMapping then BPF_ALIGN_OF_U128
      else alignOffset data.length) = s.layout.areaLen data.length := by
  simp only [mappedData, Serializer.layout, layout, areaLen, dataOutside, h]
  cases s.isLoaderV1 <;> cases s.features.accountDataDirectMapping <;> simp

theorem pushReserved_fields (s : Serializer) (remap) (reserved : Nat) :
    (s.pushReserved remap reserved).buffer = s.buffer ∧ (s.pushReserved remap reserved).capacity = s.capacity ∧
    (s.pushReserved remap reserved).isLoaderV1 = s.isLoaderV1 ∧
    (s.pushReserved remap reserved).features = s.features ∧ (s.regionStart ≤ s.buffer.length →
      (s.pushReserved remap reserved).regionStart ≤ s.buffer.length) := by
  unfold pushReserved
  split
  · exact ⟨rfl, rfl, rfl, rfl, id⟩
  · split
    · exact ⟨rfl, rfl, rfl, rfl, id⟩
    · exact ⟨rfl, rfl, rfl, rfl, fun _ => le_rfl⟩

/-- With room for its area, an account is written. -/
theorem writeAccount_succeeds (hi : b.getIndexInTransaction.toNat < st.accounts.len)
    (h : st.serializer.Room size (st.serializer.layout.areaLen (b.getData st.accounts).length)) :
    Succeeds (writeAccount ext b) st := by
  refine .step rfl ?_
  split
  · rename_i hvasa
    have harea := length_mapped_area st.serializer (b.getData st.accounts) hvasa
    have hroom := h.capacity ▸ h.room
    refine .bind (pushRegion_succeeds h.start) fun _ st1 hpush => ?_
    obtain rfl := pushRegion_ok hpush
    refine .step rfl ?_
    refine .bind (writeMappedData_succeeds ?_) fun _ st2 hdata => ?_
    · have hle : (st.serializer.mappedData (b.getData st.accounts)).length ≤
          st.serializer.layout.areaLen (b.getData st.accounts).length := by omega
      exact le_trans (Nat.add_le_add_left hle _) hroom
    obtain rfl := writeMappedData_ok hdata
    refine .bind (pushReservedRegion_succeeds hi ?_) fun _ st3 hreserved => ?_
    · show st.serializer.buffer.length ≤ (st.serializer.buffer ++ _).length
      rw [length_append]
      omega
    obtain ⟨remap, ⟨hsame, -, -⟩, hser⟩ := pushReservedRegion_ok (by exact hi) hreserved
    obtain ⟨hbuffer, hcapacity, hv1, hfeatures, -⟩ := pushReserved_fields
      (st.serializer.closeRegion.append (st.serializer.mappedData (b.getData st.accounts))) remap
      (addressSpaceReserved st.serializer.isLoaderV1 (b.getData st.accounts).length)
    refine .bind (writeMappedPadding_succeeds fun hnotV1 => ?_) fun _ _ _ => .pure _ _
    have hdata : b.getData st3.accounts = b.getData st.accounts := (hsame.view _).data
    have hser : st3.serializer = (st.serializer.closeRegion.append (st.serializer.mappedData
      (b.getData st.accounts))).pushReserved remap
      (addressSpaceReserved st.serializer.isLoaderV1 (b.getData st.accounts).length) := hser
    have hnotV1 : st.serializer.isLoaderV1 = false := by
      rw [hser, hv1] at hnotV1
      exact hnotV1
    rw [hser, hbuffer, hcapacity, hfeatures, hdata]
    rw [hnotV1] at harea
    rw [← harea, ← add_assoc] at hroom
    show (st.serializer.buffer ++ _).length + _ ≤ _
    rw [length_append]
    exact hroom
  · rename_i hvasa
    refine .step (run_writeAll _) (.bind (writePadding_succeeds fun hv1 => ?_) fun _ _ _ => .pure _ _)
    have hv1 : st.serializer.isLoaderV1 = false := hv1
    have hroom := h.capacity ▸ h.room
    simp only [Serializer.layout, layout, areaLen, dataOutside, hvasa, hv1,
      Bool.false_and, Bool.false_eq_true, if_false] at hroom
    simp only [put_serializer, buffer_append, length_append]
    exact le_trans (by omega) hroom

end Succeeds

/-! ## The accounts -/

section Accounts

variable {a : TransactionAccounts} {s s₁ : Serializer} {st : Serializing} {ext : Externals} {size n : Nat}
  {metas : List SerializedAccountMetadata} {account : SerializeAccount} {hosts : UInt16 → UInt64}

theorem append_start (h : s.regionStart ≤ s.buffer.length) (bytes) :
    (s.append bytes).regionStart ≤ (s.append bytes).buffer.length := by
  rw [buffer_append, length_append]
  exact Nat.le_add_right_of_le h

theorem padMapped_start (s : Serializer) (dataLen : Nat) (h : s.regionStart ≤ s.buffer.length) :
    (s.padMapped dataLen).regionStart ≤ (s.padMapped dataLen).buffer.length ∧
      (s.padMapped dataLen).capacity = s.capacity := by
  unfold padMapped
  split
  · exact ⟨h, rfl⟩
  · split
    · refine ⟨?_, rfl⟩
      show s.regionStart + (BPF_ALIGN_OF_U128 - alignOffset dataLen) ≤ (s.buffer ++ zeros BPF_ALIGN_OF_U128).length
      rw [length_append, length_zeros]
      omega
    · exact ⟨append_start h _, rfl⟩

theorem putData_start (s : Serializer) (remap) (data)
    (h : s.regionStart ≤ s.buffer.length) :
    (s.putData remap data).regionStart ≤ (s.putData remap data).buffer.length ∧
      (s.putData remap data).capacity = s.capacity := by
  unfold putData
  split
  · obtain ⟨hbuffer, hcapacity, -, -, hstart⟩ := pushReserved_fields (s.closeRegion.append (s.mappedData data))
      remap (addressSpaceReserved s.isLoaderV1 data.length)
    have hclosed : (s.closeRegion.append (s.mappedData data)).regionStart ≤
        (s.closeRegion.append (s.mappedData data)).buffer.length := by
      show s.buffer.length ≤ (s.buffer ++ _).length
      rw [length_append]
      omega
    obtain ⟨hpad, hpadCapacity⟩ := padMapped_start _ data.length (hbuffer.symm ▸ hstart hclosed)
    exact ⟨hpad, hpadCapacity.trans hcapacity⟩
  · exact ⟨append_start h _, rfl⟩

theorem Serializer.Room.append (h : s.Room size (bytes.length + n)) : (s.append bytes).Room size n := by
  refine ⟨append_start h.start _, h.capacity, ?_⟩
  rw [buffer_append, length_append, add_assoc]
  exact h.room

theorem Serializer.Room.mono (h : s.Room size n) (hle : m ≤ n) : s.Room size m :=
  ⟨h.start, h.capacity, (Nat.add_le_add_left hle _).trans h.room⟩

/-- The record of an account has its area behind its head. -/
theorem Serializer.Room.area (h : s.Room size (s.layout.recordLen ((SerializeAccount.Account index b).entry a))) :
    (s.append (s.layout.head b a)).Room size (s.layout.areaLen (b.getData a).length) := by
  refine .append (h.mono ?_)
  rw [length_head]
  exact Nat.le_add_right _ _

/-- After an account there is room for what is to come. -/
theorem Serializer.Writes.room (hwrites : s.Writes a hosts account m s₁)
    (h : s.Room size (s.layout.recordLen (account.entry a) + n)) : s₁.Room size n := by
  obtain ⟨bytes, hbytes, hlength⟩ := hwrites.buffer_eq
  have hstart : s₁.regionStart ≤ s₁.buffer.length ∧ s₁.capacity = s.capacity := by
    cases hwrites with
    | duplicate => exact ⟨append_start h.start _, rfl⟩
    | @account index b s2 remap keeps data =>
      obtain ⟨hput, hcapacity⟩ := putData_start _ remap (b.getData a) (append_start h.start (s.layout.head b a))
      rw [← data] at hput hcapacity
      exact ⟨append_start hput _, hcapacity⟩
  refine ⟨hstart.1, hstart.2.trans h.capacity, ?_⟩
  rw [hbytes, length_append, hlength, add_assoc]
  exact h.room

/-- A duplicate whose account was not written before. -/
def SerializeAccount.Dangling (written : Nat) : SerializeAccount → Prop
  | .Duplicate position => written ≤ position.toNat
  | .Account _ _ => False

theorem duplicateMetadata_cases (metas) (position) (st) :
    Succeeds (duplicateMetadata metas position) st ∨
      metas.length ≤ position.toNat ∧ (duplicateMetadata metas position).run st = .error .panic st := by
  unfold duplicateMetadata
  cases hget : metas[position.toNat]? with
  | some metadata => exact .inl ⟨_, _, rfl⟩
  | none => exact .inr ⟨getElem?_eq_none_iff.mp hget, rfl⟩

/-- With room for its record, an account is written, unless it is dangling. -/
theorem serializeAccountFor_cases (hv1 : st.serializer.isLoaderV1 = isLoaderV1) (hi : account.InRange st.accounts)
    (h : st.serializer.Room size (st.serializer.layout.recordLen (account.entry st.accounts))) :
    Succeeds (serializeAccountFor isLoaderV1 ext metas account) st ∨
      account.Dangling metas.length ∧ (serializeAccountFor isLoaderV1 ext metas account).run st = .error .panic st := by
  have hlayout : st.serializer.layout.isLoaderV1 = isLoaderV1 := hv1
  cases account with
  | Duplicate position =>
    rcases duplicateMetadata_cases metas position st with hmetadata | ⟨hdangling, hrun⟩
    · refine .inl ?_
      cases isLoaderV1 with
      | true => exact hmetadata.bind fun _ _ _ => .step rfl (.pure _ _)
      | false => exact hmetadata.bind fun _ _ _ => .step rfl (.step rfl (.pure _ _))
    · refine .inr ⟨hdangling, ?_⟩
      cases isLoaderV1 <;>
        simp [serializeAccountFor, serializeAccountForAbiv0, serializeAccountForAbiv1, hrun]
  | Account index b =>
    refine .inl ?_
    cases isLoaderV1 with
    | true =>
      refine .step rfl ?_
      refine .writeAll (.writeAll (.writeAll (.writeAll (.writeAll (.writeAll ?_)))))
      simp only [put_serializer, append_append, head_v1 hlayout]
      exact .bind (writeAccount_succeeds (by exact hi) h.area) fun _ _ _ => 
        .step rfl (.step rfl (.step rfl (.step rfl (.pure _ _))))
    | false =>
      refine .step rfl ?_
      refine .writeAll (.writeAll (.writeAll (.writeAll (.writeAll (.writeAll (.writeAll (.writeAll (.writeAll ?_))))))))
      simp only [put_put, put_serializer, append_append, head_v2 hlayout]
      exact .bind (writeAccount_succeeds (by exact hi) h.area) fun _ _ _ =>
        .step rfl (.step rfl (.pure _ _))

/-- The run has stopped at a dangling duplicate, with room left in the buffer. -/
def StopsAt (size : Nat) (accounts : List SerializeAccount) (written : Nat) (fault : Fault) (st : Serializing) : Prop :=
  fault = .panic ∧ st.serializer.buffer.length ≤ size ∧
    ∃ (k : Nat) (account : SerializeAccount), accounts[k]? = some account ∧ account.Dangling (written + k)

/-- How the loop over the accounts ends: with room for `n` bytes, or at a dangling duplicate. -/
def LoopEnds (size n written : Nat) (accounts : List SerializeAccount) :
    EStateM.Result Fault Serializing (List SerializedAccountMetadata) → Prop
  | .ok metas st => metas.length = written + accounts.length ∧ st.serializer.Room size n
  | .error fault st => StopsAt size accounts written fault st

/-- The loop over the accounts, with room for their records and for `n` bytes more. -/
theorem serializeAccounts_cases {accounts : List SerializeAccount} (metas)
    (hv1 : st.serializer.isLoaderV1 = isLoaderV1) (hsame : SameAccounts a st.accounts)
    (hi : ∀ account ∈ accounts, account.InRange a)
    (h : st.serializer.Room size (recordsLen st.serializer.layout a accounts + n)) :
    LoopEnds size n metas.length accounts
      ((serializeAccounts (serializeAccountFor isLoaderV1 ext) metas accounts).run st) := by
  induction accounts generalizing st metas with
  | nil => exact ⟨rfl, h.mono (Nat.le_add_left _ _)⟩
  | cons account accounts ih =>
    have hrange : account.InRange st.accounts :=
      (inRange_congr hsame.len).mpr (hi account mem_cons_self)
    have hentry : account.entry st.accounts = account.entry a := by
      cases account with
      | Duplicate position => rfl
      | Account index b =>
        have hdata : b.getData st.accounts = b.getData a := (hsame.view _).data
        simp [entry, hdata]
    rw [recordsLen_cons, ← hentry, add_assoc] at h
    simp only [serializeAccounts, run_bind]
    rcases serializeAccountFor_cases hv1 hrange (h.mono (Nat.le_add_right _ _)) with
      ⟨m, st1, hrun⟩ | ⟨hdangling, hrun⟩
    · obtain ⟨hsame1, -, hw⟩ := serializeAccountFor_ok hv1 hrange hrun
      have hroom := hw.room h
      rw [← hw.layout_eq] at hroom
      have hrest := ih (metas ++ [m]) ((congrArg Layout.isLoaderV1 hw.layout_eq).trans hv1)
        (hsame.trans hsame1) (fun account' hmem => hi account' (mem_cons_of_mem _ hmem)) hroom
      rw [hrun]
      dsimp only
      rw [length_append, length_singleton] at hrest
      cases hloop : (serializeAccounts (serializeAccountFor isLoaderV1 ext) (metas ++ [m]) accounts).run st1 with
      | ok metas' st' =>
        rw [hloop] at hrest
        exact ⟨by rw [hrest.1, length_cons]; omega, hrest.2⟩
      | error fault st' =>
        rw [hloop] at hrest
        obtain ⟨hpanic, hroom', k, account', haccount', hdangling⟩ := hrest
        exact ⟨hpanic, hroom', k + 1, account', haccount', by rwa [add_assoc, add_comm 1] at hdangling⟩
    · rw [hrun]
      have hroom := h.room
      exact ⟨rfl, by omega, 0, account, rfl, hdangling⟩

end Accounts

/-! ## The whole buffer -/

section Layout

variable {ext : Externals} {ic : InstructionContext} {rent : Rent} {features : InputFeatures} {a a' : TransactionAccounts}
  {accounts : List SerializeAccount} {size : Nat}
  {st : Serializing} {offset : Option Nat} {instructionData : List UInt8}

theorem writePointers_succeeds (metas) (st) :
    Succeeds (writePointers metas) st := by
  induction metas generalizing st with
  | nil => exact .pure _ _
  | cons m metas ih => exact .step rfl (ih _)

theorem writePointerArray_succeeds (h : st.serializer.Room size (pointersBytes offset metas).length) :
    Succeeds (writePointerArray offset metas) st := by
  cases offset with
  | none => exact .pure _ _
  | some n =>
    have hroom := h.capacity ▸ h.room
    rw [pointersBytes, length_append, length_zeros] at hroom
    exact .bind (fillWrite_succeeds (by omega)) fun _ _ _ => writePointers_succeeds _ _

theorem finish_succeeds (h : st.serializer.Room size n) (metas)
    (addr) : Succeeds (finish metas addr) st :=
  .bind (pushRegion_succeeds h.start) fun _ _ _ => .step rfl (.pure _ _)

/-- The bytes behind the accounts. -/
def trailerLen (accounts : List SerializeAccount) (instructionData : List UInt8) (offset : Option Nat) : Nat :=
  8 + instructionData.length + 32 + (offset.map (· + accounts.length * 8)).getD 0

/-- With room for what follows the accounts, the buffer is finished. -/
theorem trailer_succeeds (programId)
    (hmetas : metas.length = accounts.length)
    (h : st.serializer.Room size (trailerLen accounts instructionData offset)) :
    Succeeds (do
      let instructionDataOffset ← writeInstruction instructionData programId
      writePointerArray offset metas
      finish metas instructionDataOffset) st := by
  have hpointers : (st.serializer.append (instructionBytes instructionData programId)).Room size
      (pointersBytes offset metas).length := by
    refine .append ?_
    rw [length_instructionBytes, length_pointersBytes, hmetas]
    exact h
  refine .step (run_writeInstruction st instructionData programId) ?_
  refine .bind (writePointerArray_succeeds hpointers) fun _ st2 hrun => ?_
  obtain rfl := writePointerArray_ok hrun
  exact finish_succeeds (n := 0) (.append hpointers) _ _

/-- A run that succeeds, or stops at a dangling duplicate. -/
def SucceedsOrStops (size : Nat) (accounts : List SerializeAccount) (x : SerializeM SerializedParameters)
    (st : Serializing) : Prop :=
  Succeeds x st ∨ ∃ fault st', x.run st = .error fault st' ∧ StopsAt size accounts 0 fault st'

theorem serializeParametersFor_cases (hv1 : st.serializer.isLoaderV1 = isLoaderV1)
    (hi : ∀ account ∈ accounts, account.InRange st.accounts)
    (h : st.serializer.Room size (8 + (recordsLen st.serializer.layout st.accounts accounts +
      trailerLen accounts instructionData offset))) :
    SucceedsOrStops size accounts (serializeParametersFor isLoaderV1 ext accounts instructionData programId offset) st := by
  let st1 := st.put (st.serializer.append (toLe 8 (UInt64.ofNat accounts.length).toNat))
  have hroom : st1.serializer.Room size (recordsLen st1.serializer.layout st.accounts accounts +
      trailerLen accounts instructionData offset) := .append (by rw [length_toLe]; exact h)
  have hloop : LoopEnds size _ 0 accounts
      ((serializeAccounts (serializeAccountFor isLoaderV1 ext) [] accounts).run st1) :=
    serializeAccounts_cases [] hv1 (.refl st.accounts) hi hroom
  cases hrun : (serializeAccounts (serializeAccountFor isLoaderV1 ext) [] accounts).run st1 with
  | ok metas st2 =>
    rw [hrun] at hloop
    obtain ⟨params, st3, hfinish⟩ := trailer_succeeds programId (hloop.1.trans (zero_add _)) hloop.2
    exact .inl ⟨params, st3, run_bind_ok.mpr ⟨_, st1, rfl, run_bind_ok.mpr ⟨metas, st2, hrun, hfinish⟩⟩⟩
  | error fault st2 =>
    rw [hrun] at hloop
    refine .inr ⟨fault, st2, ?_, hloop⟩
    show run (serializeAccounts (serializeAccountFor isLoaderV1 ext) [] accounts >>= _) st1 = _
    rw [run_bind, hrun]

/-- The second pass succeeds, or stops at a dangling duplicate. -/
theorem writeLayout_cases (ext) (features) (isLoaderV1 : Bool) (bufferAddr)
    (instructionData) (programId) (hi : ∀ account ∈ accounts, account.InRange a) :
    (∃ p st, writeLayout ext features isLoaderV1 bufferAddr accounts instructionData programId a = .ok p st) ∨
    ∃ fault st, writeLayout ext features isLoaderV1 bufferAddr accounts instructionData programId a = .error fault st ∧
      StopsAt (allocatedSize features isLoaderV1 a accounts instructionData) accounts 0 fault st := by
  rw [writeLayout_run]
  refine serializeParametersFor_cases rfl hi ⟨le_rfl, rfl, ?_⟩
  show 0 + (8 + (recordsLen ⟨isLoaderV1, features.dataOutside⟩ a accounts + _)) ≤ _
  rw [allocatedSize, serializedSize_eq, trailerLen]
  omega

/-- The second pass writes as many bytes as the first one has counted. It stops before
only at a duplicate that does not repeat an account before it, with room left. -/
theorem serialized_size_exact (ext : Externals) (features : InputFeatures)
    (hcollect : (collectAccounts ic rent ic.indices).run a = .ok accounts a')
    (isLoaderV1 : Bool) (bufferAddr : UInt64) (programId : Pubkey) :
    match writeLayout ext features isLoaderV1 bufferAddr accounts ic.instructionData programId a' with
    | .ok p st =>
      st.serializer.buffer = p.mem ∧ p.mem.length = allocatedSize features isLoaderV1 a' accounts ic.instructionData
    | .error fault st => StopsAt (allocatedSize features isLoaderV1 a' accounts ic.instructionData) accounts 0 fault st := by
  have hcollected := collectAccounts_ok hcollect
  have hi : ∀ account ∈ accounts, account.InRange a' := by
    simp only [inRange_congr hcollected.len]
    exact inRange_of_collects hcollected.collects
  rcases writeLayout_cases ext features isLoaderV1 bufferAddr ic.instructionData programId hi with
    ⟨p, st, hrun⟩ | ⟨fault, st, hrun, hstops⟩
  · obtain ⟨-, hbuffer, hser⟩ := writeLayout_ok hi hcollected.apart hrun
    obtain ⟨s₁, bytes, hwritten, rfl, -, hmem, -⟩ := hser.written
    rw [hrun]
    refine ⟨hbuffer, ?_⟩
    rw [hmem, length_append, hwritten.length_buffer, length_append, length_instructionBytes,
      length_pointersBytes, hwritten.records.1, allocatedSize, serializedSize_eq]
    show 0 + 8 + recordsLen ⟨isLoaderV1, features.dataOutside⟩ a' accounts + _ = _
    omega
  · rw [hrun]
    exact hstops

end Layout

namespace Repeated

/-- The accounts of the instruction, and its program input. -/
def layout : Option (List SerializeAccount × TransactionAccounts × SerializedParameters × Serializing) :=
  match (collectAccounts ic rent ic.indices).run accounts with
  | .error _ _ => none
  | .ok collected a =>
    match writeLayout ext.toExternals features true 4096 collected ic.instructionData (.replicate 32 4) a with
    | .error _ _ => none
    | .ok p st => some (collected, a, p, st)

end Repeated

theorem serialized_size_exact_repeated :
    ∃ accounts a p st, (collectAccounts Repeated.ic Repeated.rent Repeated.ic.indices).run Repeated.accounts =
        .ok accounts a ∧
      writeLayout Repeated.ext.toExternals Repeated.features true 4096 accounts Repeated.ic.instructionData
        (.replicate 32 4) a = .ok p st ∧
      p.mem.length = allocatedSize Repeated.features true a accounts Repeated.ic.instructionData := by
  have hsome : Repeated.layout.isSome = true := by decide +kernel
  obtain ⟨⟨accounts, a, p, st⟩, hlayout⟩ := Option.isSome_iff_exists.mp hsome
  unfold Repeated.layout at hlayout
  split at hlayout
  · cases hlayout
  rename_i accounts a hcollect
  split at hlayout
  · cases hlayout
  rename_i p st hwrite
  have hexact := serialized_size_exact Repeated.ext.toExternals Repeated.features hcollect true 4096 (.replicate 32 4)
  rw [hwrite] at hexact
  exact ⟨_, _, _, _, hcollect, hwrite, hexact.2⟩

end Svm
