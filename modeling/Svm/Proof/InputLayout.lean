import Svm.Proof.InputRegions

/-!
# The layout of the program input

The regions, the recorded addresses and deserialization agree
(`program_input_layout`): the bytes of a record are at the positions of the layout
(`Layout.contains_key` and the lemmas behind it), the recorded addresses resolve to
these positions (`Serializes.located`), and they are where deserialization reads
(`deserializeAccounts_eq`).
-/

namespace Svm

open Machine Run Bytes Sbpf InstructionContext EStateM SerializeAccount InputFeatures
open List hiding append_nil getElem?_eq_some_iff
open Repeated hiding layout
open Layout hiding dataOutside recordStart
open Serializer hiding layout

variable {buffer bytes : List UInt8} {position k : Nat} {b : BorrowedInstructionAccount} {l : Layout}
  {vmAddr len : UInt64}

/-! ## Bytes at a position -/

/-- The bytes are in the buffer from a position on. -/
def Contains (buffer : List UInt8) (position : Nat) (bytes : List UInt8) : Prop :=
  ∃ before after, buffer = before ++ (bytes ++ after) ∧ before.length = position

theorem Contains.within {inner : List UInt8} (h : Contains buffer position inner)
    (hinner : Contains inner k bytes) : Contains buffer (position + k) bytes := by
  obtain ⟨before, after, rfl, rfl⟩ := h
  obtain ⟨before', after', rfl, rfl⟩ := hinner
  exact ⟨before ++ before', after' ++ after, by simp, length_append⟩

theorem Contains.length_le (h : Contains buffer position bytes) : position + bytes.length ≤ buffer.length := by
  obtain ⟨before, after, rfl, rfl⟩ := h
  simp only [length_append]
  omega

theorem HostHas.contains (h : HostHas host addr buffer) (hbytes : Contains buffer position bytes) :
    HostHas host (addr + .ofNat position) bytes := by
  have hle := hbytes.length_le
  obtain ⟨hspace, hbyte⟩ := h
  have haddr : (addr + .ofNat position).toNat = addr.toNat + position := by
    rw [UInt64.toNat_add, UInt64.toNat_ofNat']
    omega
  refine ⟨by omega, fun i x hx => ?_⟩
  have hlt := (getElem?_eq_some_iff.mp hx).1
  obtain ⟨before, after, rfl, rfl⟩ := hbytes
  rw [← hbyte (before.length + i) x (by
    rw [getElem?_append_right (Nat.le_add_right _ _), Nat.add_sub_cancel_left, getElem?_append_left hlt, hx])]
  rw [UInt64.add_assoc, ← UInt64.ofNat_add]

namespace Layout

variable (l : Layout) (b : BorrowedInstructionAccount) (a : TransactionAccounts)

/-- The record of an account. -/
def record : List UInt8 := l.head b a ++ (l.area (b.getData a) ++ l.tail b a)

/-- The bytes in front of the key. -/
def flags : List UInt8 :=
  if l.isLoaderV1 then [NON_DUP_MARKER, boolByte b.isSigner, boolByte b.isWritable]
  else [NON_DUP_MARKER, boolByte b.isSigner, boolByte b.isWritable, boolByte (b.isExecutable a), 0, 0, 0, 0]

/-- The bytes in front of the lamports. -/
def beforeLamports : List UInt8 :=
  l.flags b a ++ ((b.getKey a).toList ++ if l.isLoaderV1 then [] else (b.getOwner a).toList)

theorem length_flags : (l.flags b a).length = l.keyAt := by
  unfold flags keyAt
  split <;> rfl

theorem length_beforeLamports : (l.beforeLamports b a).length = l.lamportsAt := by
  rw [beforeLamports, length_append, length_flags, lamportsAt]
  split <;> simp

theorem head_eq : l.head b a = l.beforeLamports b a ++ (toLe 8 (b.getLamports a).toNat ++
    toLe 8 (UInt64.ofNat (b.getData a).length).toNat) := by
  unfold head beforeLamports flags
  split <;> simp

theorem contains_head (h : Contains (l.head b a) k bytes) : Contains (l.record b a) k bytes := by
  have hhead : Contains (l.record b a) 0 (l.head b a) := ⟨[], _, rfl, rfl⟩
  have := hhead.within h
  rwa [zero_add] at this

theorem contains_key : Contains (l.record b a) l.keyAt (b.getKey a).toList := by
  have hhead : ∃ after, l.head b a = l.flags b a ++ ((b.getKey a).toList ++ after) := by
    rw [head_eq, beforeLamports, append_assoc, append_assoc]
    exact ⟨_, rfl⟩
  obtain ⟨after, hhead⟩ := hhead
  exact l.contains_head b a ⟨l.flags b a, after, hhead, l.length_flags b a⟩

theorem contains_lamports : Contains (l.record b a) l.lamportsAt (toLe 8 (b.getLamports a).toNat) :=
  l.contains_head b a ⟨l.beforeLamports b a, _, l.head_eq b a, l.length_beforeLamports b a⟩

theorem contains_len : Contains (l.record b a) l.lenAt (toLe 8 (UInt64.ofNat (b.getData a).length).toNat) := by
  refine l.contains_head b a ⟨l.beforeLamports b a ++ toLe 8 (b.getLamports a).toNat, [], ?_, ?_⟩
  · rw [head_eq, append_assoc, List.append_nil]
  · rw [length_append, length_beforeLamports, length_toLe, lenAt]

theorem contains_owner : Contains (l.record b a) (l.ownerAt (b.getData a).length) (b.getOwner a).toList := by
  by_cases hv1 : l.isLoaderV1 = true
  · refine ⟨l.head b a ++ l.area (b.getData a), [boolByte (b.isExecutable a)] ++ toLe 8 U64.max.toNat, ?_, ?_⟩
    · simp [record, tail, hv1]
    · rw [length_append, length_head, length_area, ownerAt, if_pos hv1]
  · have hhead : ∃ after, l.head b a = (l.flags b a ++ (b.getKey a).toList) ++ ((b.getOwner a).toList ++ after) := by
      rw [head_eq, beforeLamports, if_neg hv1, ← append_assoc (l.flags b a), append_assoc (_ ++ _)]
      exact ⟨_, rfl⟩
    obtain ⟨after, hhead⟩ := hhead
    refine l.contains_head b a ⟨l.flags b a ++ (b.getKey a).toList, after, hhead, ?_⟩
    · rw [length_append, length_flags, ownerAt, if_neg hv1]
      simp

theorem contains_data (hout : l.dataOutside = false) : Contains (l.record b a) l.dataAt (b.getData a) := by
  obtain ⟨padding, hpadding⟩ := l.area_eq (b.getData a) hout
  exact ⟨l.head b a, padding ++ l.tail b a, by rw [record, hpadding, append_assoc], l.length_head b a⟩

end Layout

/-! ## The finished input -/

section Finished

variable {ext : SerializeExternals} {ic : InstructionContext} {rent : Rent} {features : InputFeatures}
  {isLoaderV1 : Bool} {bufferAddr : UInt64} {accounts : List SerializeAccount}

/-- The serializer in front of the accounts and behind them, with the bytes that are
written last. -/
structure Finished (isLoaderV1 : Bool) (features : InputFeatures) (bufferAddr : UInt64) (a : TransactionAccounts)
    (hosts : UInt16 → UInt64) (accounts : List SerializeAccount) (p : SerializedParameters) (s s' : Serializer)
    (bytes : List UInt8) : Prop where
  written : s.Written a hosts accounts p.accountsMetadata s'
  offset : p.instructionDataOffset = (s'.vaddrAt 8).toNat
  mem : p.mem = s'.buffer ++ bytes
  regions : p.regions = (s'.append bytes).mapped
  mapping : s.Mapping 8
  start : s.buffer.length = 8
  single : s.regions = []
  isLoaderV1_eq : s.isLoaderV1 = isLoaderV1
  features_eq : s.features = features
  bufferAddr_eq : s.bufferAddr = bufferAddr
  space : 8 + recordsLen (guestLayout isLoaderV1) a accounts + bytes.length < 2 ^ 62

theorem alignOffset_le (n : Nat) : alignOffset n ≤ 7 := Nat.le_of_lt_succ (alignOffset_lt n)

theorem Serializes.finished (h : Serializes ext.toExternals ic rent features isLoaderV1 bufferAddr a p accounts a₁)
    (hspace : ic.addressSpace isLoaderV1 p.accountsMetadata < 2 ^ 62) :
    ∃ s s' programId, Finished isLoaderV1 features bufferAddr a (payloadHosts ext.toExternals a₁) accounts p s s'
      (instructionBytes ic.instructionData programId ++
        pointersBytes (pointersOffset features isLoaderV1 a accounts ic.instructionData) p.accountsMetadata) := by
  rw [addressSpace, Layout.recordStart, ← h.entries_eq, map_map] at hspace
  replace hspace : 8 + recordsLen (guestLayout isLoaderV1) a accounts + _ + _ < _ := hspace
  obtain ⟨programId, -, ⟨s', bytes, hwritten, rfl, hoffset, hmem, hregions⟩, -⟩ := h.serialized
  refine ⟨_, s', programId, hwritten, hoffset, hmem, hregions, ⟨?_, ?_, ?_⟩, ?_, rfl, rfl, rfl, rfl, ?_⟩
  · have hat := (Serializer.At.new (allocatedSize features isLoaderV1 a accounts ic.instructionData) bufferAddr isLoaderV1
      features).append (toLe 8 (UInt64.ofNat accounts.length).toNat)
    rwa [length_toLe] at hat
  · rfl
  · exact noGaps_mapped.mpr fun _ h => by cases h
  · simp [new]
  · rw [length_append, length_instructionBytes, length_pointersBytes]
    cases hpointers : pointersOffset features isLoaderV1 a accounts ic.instructionData with
    | none =>
      simp only [Option.map_none, Option.getD_none]
      omega
    | some n =>
      have hn : n ≤ 7 := by
        unfold pointersOffset at hpointers
        split at hpointers
        · cases hpointers
          exact alignOffset_le _
        · cases hpointers
      simp only [Option.map_some, Option.getD_some]
      omega

/-- The records before an account, its own and those behind it. -/
theorem recordsLen_split (l) (a) (hk : accounts[k]? = some account) :
    recordsLen l a (accounts.take k) + l.recordLen (account.entry a) + recordsLen l a (accounts.drop (k + 1)) =
      recordsLen l a accounts := by
  obtain ⟨hlt, rfl⟩ := getElem?_eq_some_iff.mp hk
  have hsplit : accounts.take k ++ accounts[k] :: accounts.drop (k + 1) = accounts := by
    rw [getElem_cons_drop, take_append_drop]
  nth_rewrite 4 [← hsplit]
  simp only [recordsLen, map_append, map_cons, sum_append, sum_cons]
  omega

namespace Finished

variable (h : Finished isLoaderV1 features bufferAddr a hosts accounts p s s' bytes)

include h

/-- The serializer behind the accounts. -/
theorem behind : s'.Mapping (8 + recordsLen (guestLayout isLoaderV1) a accounts) := by
  have hspace := h.space
  rw [← h.isLoaderV1_eq] at hspace ⊢
  exact (h.written.mapping h.mapping (by omega)).1

/-- The regions follow one another. -/
theorem isChain :
    p.regions.IsChain (Follows (· ∈ dataStarts accounts p.accountsMetadata) (guestLayout isLoaderV1).growth) := by
  rw [h.regions]
  refine isChain_mapped_append _ ?_
  by_cases hvasa : s.features.virtualAddressSpaceAdjustments = true
  · have hspace := h.space
    rw [← h.isLoaderV1_eq] at hspace ⊢
    refine h.written.isChain h.mapping (by omega) hvasa rfl (fun x hx => .inr (.inr hx)) (fun x hx => hx) ?_
    rw [mapped, h.single]
    exact .singleton _
  · rw [mapped, h.written.regions_flat hvasa, h.single]
    exact .singleton _

theorem ordered :
    p.regions.Pairwise Sbpf.MemoryRegion.Before := pairwise_before h.isChain

/-- Where the recorded addresses of an account resolve to. -/
theorem located (hhost : bufferAddr.toNat + p.mem.length < 2 ^ 64) (hk : accounts[k]? = some (.Account index b)) :
    ∃ m, p.accountsMetadata[k]? = some m ∧
      RecordedAt isLoaderV1 m (8 + recordsLen (guestLayout isLoaderV1) a (accounts.take k)) (b.getData a).length ∧
      Serializer.LocatedAt p.regions bufferAddr (features.layout isLoaderV1) (hosts b.getIndexInTransaction) m
        (8 + recordsLen (features.layout isLoaderV1) a (accounts.take k)) (b.getData a).length := by
  obtain ⟨s1, s2, m, hm, hbefore, hwrites, hafter⟩ := h.written.split hk
  have hspace := h.space
  rw [← recordsLen_split _ _ hk] at hspace
  obtain ⟨hfeatures, hbufferAddr, hv1⟩ := hbefore.fixed
  rw [h.features_eq] at hfeatures
  rw [h.bufferAddr_eq] at hbufferAddr
  rw [h.isLoaderV1_eq] at hv1
  have hmapping := (hbefore.mapping h.mapping (by rw [h.isLoaderV1_eq]; omega)).1
  rw [h.isLoaderV1_eq] at hmapping
  have hroom : 8 + recordsLen (guestLayout isLoaderV1) a (accounts.take k) +
      (guestLayout s1.isLoaderV1).recordLen (some (b.getData a).length) < 2 ^ 62 := by
    rw [hv1]
    simp only [SerializeAccount.entry] at hspace
    omega
  have hnext := hwrites.mapping hmapping hroom
  have hrest : 8 + recordsLen (guestLayout isLoaderV1) a (accounts.take k) +
      (guestLayout s1.isLoaderV1).recordLen (some (b.getData a).length) +
      recordsLen (guestLayout s2.isLoaderV1) a (accounts.drop (k + 1)) + bytes.length < 2 ^ 62 := by
    rw [hwrites.isLoaderV1_eq, hv1]
    simp only [SerializeAccount.entry] at hspace
    omega
  have hgrows : KeepsRegions s2.mapped p.regions := by
    rw [h.regions]
    exact (hafter.mapping hnext (by simp only [SerializeAccount.entry]; omega)).2.trans
      (h.behind.at_.grows_append bytes h.space)
  have hlayout : s1.layout = features.layout isLoaderV1 := by
    rw [Serializer.layout, hfeatures, hv1]
  have hstart : s1.buffer.length = 8 + recordsLen (features.layout isLoaderV1) a (accounts.take k) := by
    rw [hbefore.length_buffer, h.start, Serializer.layout, h.features_eq, h.isLoaderV1_eq]
  have hmem : s2.buffer.length ≤ p.mem.length := by
    rw [h.mem, length_append, hafter.length_buffer]
    omega
  have hrecorded := hwrites.recorded hmapping.at_ hroom
  have hlocated := hwrites.located hmapping.at_ hroom hgrows h.ordered (by rw [hbufferAddr]; omega)
  rw [hv1] at hrecorded
  rw [hbufferAddr, hlayout, hstart] at hlocated
  exact ⟨m, hm, hrecorded, hlocated⟩

/-- Where the bytes behind the accounts are found. -/
theorem locate_last (hhost : bufferAddr.toNat + p.mem.length < 2 ^ 64)
    (haddr : vmAddr.toNat = MM_INPUT_START.toNat + (8 + recordsLen (guestLayout isLoaderV1) a accounts) + k)
    (hlt : k < bytes.length) (hfits : k + len.toNat ≤ bytes.length) :
    locate p.regions vmAddr len = some (bufferAddr + .ofNat (s'.buffer.length + k)) := by
  have hbufferAddr : s'.bufferAddr = bufferAddr := h.written.fixed.2.1.trans h.bufferAddr_eq
  rw [h.mem, length_append] at hhost
  rw [← hbufferAddr]
  exact h.behind.at_.locate_open (h.regions ▸ .refl _) h.ordered h.space (by rw [hbufferAddr]; exact hhost) haddr hlt hfits

theorem length_behind : s'.buffer.length = 8 + recordsLen (features.layout isLoaderV1) a accounts := by
  rw [h.written.length_buffer, h.start, Serializer.layout, h.features_eq, h.isLoaderV1_eq]

/-- The buffer is longer than the records up to an account. -/
theorem length_mem_ge (hk : accounts[k]? = some account) :
    8 + recordsLen (features.layout isLoaderV1) a (accounts.take k) +
      (features.layout isLoaderV1).recordLen (account.entry a) ≤ p.mem.length := by
  rw [h.mem, length_append, h.length_behind, ← recordsLen_split _ _ hk]
  omega

theorem contains_last :
    Contains p.mem s'.buffer.length bytes := ⟨s'.buffer, [], by rw [h.mem, List.append_nil], rfl⟩

/-- A program reads the bytes behind the accounts at their guest addresses. -/
theorem shows_last (hhost : HostHas host bufferAddr p.mem)
    (haddr : vmAddr.toNat = MM_INPUT_START.toNat + (8 + recordsLen (guestLayout isLoaderV1) a accounts) + k)
    (hpart : Contains bytes k part) (hlt : k < bytes.length) : Shows p.regions host vmAddr part := by
  have hle := hpart.length_le
  refine ⟨_, h.locate_last hhost.inSpace haddr hlt ?_, hhost.contains (h.contains_last.within hpart)⟩
  rw [UInt64.toNat_ofNat']
  omega

end Finished

end Finished

/-! ## Where deserialization reads -/

section Reads

variable {ic : InstructionContext} {rent : Rent} {features : InputFeatures} {positions : FieldPositions}
  {start preLen : Nat}

/-- Positions in the record at `start`. -/
structure FieldPositions.At (positions : FieldPositions) (l : Layout) (start preLen : Nat) : Prop where
  owner : positions.owner = start + l.ownerAt preLen
  lamports : positions.lamports = start + l.lamportsAt
  len : positions.len = start + l.lenAt
  data : l.dataOutside = false → positions.data = start + l.dataAt

/-- Data that is mapped directly is not read from the buffer. -/
theorem deserializeData_outside (hout : features.dataOutside = true) (b)
    (start start' len : Nat) :
    deserializeData features b buffer start len = deserializeData features b buffer start' len := by
  obtain ⟨hvasa, hdm⟩ : features.virtualAddressSpaceAdjustments = true ∧ features.accountDataDirectMapping = true := by
    simpa [dataOutside] using hout
  simp [deserializeData, hvasa, hdm]

theorem deserializeData_at (hl : l.dataOutside = features.dataOutside)
    (h : positions.At l start preLen) (b) (len : Nat) :
    deserializeData features b buffer positions.data len = deserializeData features b buffer (start + l.dataAt) len := by
  cases hout : features.dataOutside with
  | true => exact deserializeData_outside hout b _ _ _
  | false => rw [h.data (hl.trans hout)]

theorem deserializeAccountForAbiv0_eq (h : positions.At (features.layout true) start preLen)
    (b) : deserializeAccountForAbiv0 features buffer preLen (start + 1) b = (do
      deserializeFields features true buffer preLen positions b
      pure (start + (features.layout true).recordLen (some preLen))) := by
  have hlamports : start + 1 + (1 + 1 + 32) = positions.lamports := by
    rw [h.lamports]
    rfl
  have hdata : deserializeData features b buffer positions.data preLen = _ := deserializeData_at rfl h b preLen
  have hstart : start + 1 + (1 + 1 + 32) + (8 + 8) = start + (features.layout true).dataAt := rfl
  have hend : start + (features.layout true).dataAt + (if features.dataOutside then 0 else preLen) + (32 + 1 + 8) =
      start + (features.layout true).recordLen (some preLen) := by
    simp only [recordLen, areaLen, layout, if_true]
    omega
  simp only [deserializeAccountForAbiv0, deserializeFields, if_true, bind_assoc, hstart, hend, hdata]
  rw [hlamports]

theorem deserializeAccountForAbiv1_eq (hpreLen : preLen < 2 ^ 62)
    (h : positions.At (features.layout false) start preLen) (b) :
    deserializeAccountForAbiv1 features buffer preLen (start + 1) b = (do
      deserializeFields features false buffer preLen positions b
      pure (start + (features.layout false).recordLen (some preLen))) := by
  have howner : start + 1 + (1 + 1 + 1 + 4 + 32) = positions.owner := by
    rw [h.owner]
    rfl
  have hlamports : positions.owner + 32 = positions.lamports := by
    rw [h.owner, h.lamports]
    rfl
  have hlen : positions.lamports + 8 = positions.len := by
    rw [h.lamports, h.len]
    rfl
  have hdata : positions.len + 8 = start + (features.layout false).dataAt := by
    rw [h.len]
    rfl
  have hend : start + (features.layout false).dataAt + (if features.dataOutside then BPF_ALIGN_OF_U128
      else satAdd 64 (satAdd 64 preLen MAX_PERMITTED_DATA_INCREASE) (alignOffset preLen)) + 8 =
      start + (features.layout false).recordLen (some preLen) := by
    have halign := alignOffset_le preLen
    have hsum : preLen + MAX_PERMITTED_DATA_INCREASE < 2 ^ 63 := by
      rw [MAX_PERMITTED_DATA_INCREASE]
      omega
    have hgrown : satAdd 64 preLen MAX_PERMITTED_DATA_INCREASE = preLen + MAX_PERMITTED_DATA_INCREASE :=
      satAdd_eq (by omega)
    rw [hgrown, satAdd_eq (by omega)]
    simp only [recordLen, areaLen, layout, Bool.false_eq_true, if_false]
    omega
  simp only [deserializeAccountForAbiv1, deserializeFields, Bool.false_eq_true, if_false, bind_assoc, howner, hlamports,
    hlen, hdata, hend, deserializeData_at rfl h b]
  refine bind_congr fun owner => bind_congr fun lamports => bind_congr fun _ => bind_congr fun postLen => ?_
  split
  · rfl
  · rw [bind_assoc]

/-- What a loop body returns does not depend on the account it borrows. -/
theorem withBorrowed_pure (index) (body) (r : α) :
    withBorrowed ic rent index (fun b => do body b; pure r) = (do
      withBorrowed ic rent index body
      pure r) := by
  unfold withBorrowed
  simp only [bind_assoc]
  refine bind_congr fun b => funext fun a => ?_
  show run _ a = run _ a
  cases hbody : (body b).run a <;>
    simp only [run_bind, run_attempt, result, final, hbody] <;> rfl

/-- What an item is to the layout. -/
def itemEntry (ic : InstructionContext) (item : UInt16 × SerializedAccountMetadata) : Option Nat :=
  match ic.isInstructionAccountDuplicate item.1 with
  | .ok none => some item.2.originalDataLen
  | _ => none

/-- A loop that goes from record to record reads every account where it is. -/
theorem deserializeAccounts_eq
    (hduplicate : l.recordLen none = 1 + duplicateLen) (items) (start : Nat)
    (hitems : ∀ k index m, items[k]? = some (index, m) → ic.isInstructionAccountDuplicate index = .ok none → ∀ b,
      deserializeAccount m.originalDataLen
          (start + ((items.take k).map fun item => l.recordLen (itemEntry ic item)).sum + 1) b = (do
        fields m b
        pure (start + ((items.take k).map fun item => l.recordLen (itemEntry ic item)).sum +
          l.recordLen (some m.originalDataLen)))) :
    deserializeAccounts ic rent duplicateLen deserializeAccount (items.map fun item => (item.1, item.2.originalDataLen))
      start = deserializeEach ic rent fields items := by
  induction items generalizing start with
  | nil => rfl
  | cons item items ih =>
    obtain ⟨index, m⟩ := item
    have htail : deserializeAccounts ic rent duplicateLen deserializeAccount
        (items.map fun item => (item.1, item.2.originalDataLen)) (start + l.recordLen (itemEntry ic (index, m))) =
        deserializeEach ic rent fields items := by
      refine ih _ fun k index' m' hk hdup b => ?_
      have := hitems (k + 1) index' m' hk hdup b
      simpa only [take_succ_cons, map_cons, sum_cons, ← add_assoc] using this
    rw [map_cons, deserializeAccounts, deserializeEach]
    cases hdup : ic.isInstructionAccountDuplicate index with
    | error e => rfl
    | ok duplicate =>
      rw [itemEntry] at htail
      simp only [hdup] at htail
      cases duplicate with
      | some position =>
        rw [hduplicate, ← add_assoc] at htail
        exact htail
      | none =>
        have hfirst : withBorrowed ic rent index (deserializeAccount m.originalDataLen (start + 1)) = (do
            withBorrowed ic rent index (fields m)
            pure (start + l.recordLen (some m.originalDataLen))) := by
          rw [← withBorrowed_pure]
          exact congrArg _ (funext fun b => hitems 0 index m rfl hdup b)
        simp [ofExcept, hfirst, htail]

end Reads

section Layout

variable {ext : SerializeExternals} {ic : InstructionContext} {rent : Rent} {features : InputFeatures}
  {a a₁ : TransactionAccounts} {p : SerializedParameters} {isLoaderV1 : Bool} {bufferAddr : UInt64}
  {accounts : List SerializeAccount}

theorem bufferPosition_eq {regions : List MemoryRegion}
    (h : locate regions vmAddr len = some (bufferAddr + .ofNat position)) (hlt : position < 2 ^ 64) :
    bufferPosition regions bufferAddr vmAddr len = position := by
  rw [bufferPosition, h]
  show (bufferAddr + UInt64.ofNat position - bufferAddr).toNat = position
  rw [UInt64.add_comm, UInt64.add_sub_cancel, UInt64.toNat_ofNat', Nat.mod_eq_of_lt hlt]

/-- The resolved addresses of an account are the positions of its record. -/
theorem Serializer.LocatedAt.positions {payload : UInt64}
    (h : Serializer.LocatedAt p.regions bufferAddr l payload m start m.originalDataLen)
    (hlt : start + l.recordLen (some m.originalDataLen) < 2 ^ 64) :
    (m.positions p.regions bufferAddr).At l start m.originalDataLen := by
  have hlamports : l.lamportsAt + 16 = l.dataAt := rfl
  have hlen : l.lenAt + 8 = l.dataAt := rfl
  have howner : l.ownerAt m.originalDataLen ≤ l.dataAt + l.areaLen m.originalDataLen := by
    unfold ownerAt
    split
    · exact le_rfl
    · rename_i hv1
      have : l.keyAt + 32 ≤ l.dataAt := by simp [dataAt, lenAt, lamportsAt, hv1]
      omega
  rw [recordLen] at hlt
  exact ⟨bufferPosition_eq h.owner (by omega), bufferPosition_eq h.lamports (by omega),
    bufferPosition_eq h.len (by omega), fun hout => bufferPosition_eq (h.data hout) (by omega)⟩

theorem mem_dataStarts :
    vmAddr ∈ dataStarts accounts metas ↔ ∃ (k : Nat) (index : UInt16) (b : BorrowedInstructionAccount)
      (m : SerializedAccountMetadata), accounts[k]? = some (.Account index b) ∧ metas[k]? = some m ∧
        m.vmDataAddr = vmAddr := by
  induction accounts generalizing metas with
  | nil => simp [dataStarts]
  | cons account accounts ih =>
    cases metas with
    | nil => cases account <;> simp [dataStarts]
    | cons m metas =>
      rw [← Nat.or_exists_add_one]
      simp only [getElem?_cons_zero, getElem?_cons_succ, ← ih]
      cases account with
      | Account index b => simp [dataStarts, eq_comm]
      | Duplicate position => simp [dataStarts]

namespace Serializes

section

variable (h : Serializes ext.toExternals ic rent features isLoaderV1 bufferAddr a p accounts a₁)

include h

/-- The items of the loop are the accounts that were collected. -/
theorem itemEntries_eq : (ic.indices.zip p.accountsMetadata).map (itemEntry ic) = accounts.map (·.entry a) := by
  rw [h.entries_eq]
  refine ext_getElem? fun k => ?_
  rw [getElem?_map, getElem?_map]
  have hlength := h.length_eq
  cases hindex : ic.indices[k]? with
  | none =>
    have hk : ic.indices.length ≤ k := getElem?_eq_none_iff.mp hindex
    rw [getElem?_eq_none (by simp only [length_zip]; omega)]
    rfl
  | some index =>
    have hk := (getElem?_eq_some_iff.mp hindex).1
    have hm : p.accountsMetadata[k]? = some p.accountsMetadata[k] := getElem?_eq_getElem (by omega)
    have hzip : (ic.indices.zip p.accountsMetadata)[k]? = some (index, p.accountsMetadata[k]) := by
      rw [getElem?_zip_eq_some]
      exact ⟨hindex, hm⟩
    rw [hzip, Option.map_some, Option.map_some, InstructionContext.entry, getElem?_indices hindex, hm]
    rfl

variable (hfinished : Finished isLoaderV1 features bufferAddr a (payloadHosts ext.toExternals a₁) accounts p s s' bytes)

include hfinished

/-- The positions that the addresses of the account at an index resolve to. -/
theorem positions_at (hhost : bufferAddr.toNat + p.mem.length < 2 ^ 64)
    (hk : (ic.indices.zip p.accountsMetadata)[k]? = some (index, m))
    (hdup : ic.isInstructionAccountDuplicate index = .ok none) :
    m.originalDataLen < 2 ^ 62 ∧ (m.positions p.regions bufferAddr).At (features.layout isLoaderV1)
      (8 + (((ic.indices.zip p.accountsMetadata).take k).map fun item =>
        (features.layout isLoaderV1).recordLen (itemEntry ic item)).sum) m.originalDataLen := by
  obtain ⟨hindex, hm⟩ := getElem?_zip_eq_some.mp hk
  obtain ⟨account, haccount, hcollects⟩ := h.collected_at hindex
  cases hcollects with
  | duplicate hdup' =>
    rw [hdup] at hdup'
    cases hdup'
  | @account ia _ hia hrange hfree =>
    obtain ⟨m', hm', hrecorded, hlocated⟩ := hfinished.located hhost haccount
    obtain rfl : m = m' := Option.some.inj (hm.symm.trans hm')
    have hlength := h.metadata_at haccount hm
    have hspace := hfinished.space
    have hmem := hfinished.length_mem_ge haccount
    rw [← recordsLen_split _ _ haccount] at hspace
    simp only [SerializeAccount.entry, ← hlength] at hspace hmem
    rw [← hlength] at hlocated
    have hsum : (((ic.indices.zip p.accountsMetadata).take k).map fun item =>
        (features.layout isLoaderV1).recordLen (itemEntry ic item)).sum =
        recordsLen (features.layout isLoaderV1) a (accounts.take k) := by
      rw [recordsLen]
      have := congrArg (fun entries => ((entries.take k).map (features.layout isLoaderV1).recordLen).sum)
        h.itemEntries_eq
      simpa only [map_take, map_map, Function.comp_def] using this
    rw [hsum]
    refine ⟨?_, hlocated.positions (by omega)⟩
    rw [recordLen_some, areaLen_guestLayout] at hspace
    omega

theorem reads (hhost : bufferAddr.toNat + p.mem.length < 2 ^ 64) (buffer) (a')
    (hloader : ∀ owner, result ic.getProgramOwner a' = .ok owner →
      decide (owner = ext.bpfLoaderDeprecatedId) = isLoaderV1) :
    (deserializeParameters ext ic rent features buffer p.accountsMetadata).run a' =
      (deserializeResolved ext ic rent features p bufferAddr buffer).run a' := by
  simp only [deserializeParameters, deserializeResolved, run_bind]
  cases howner : ic.getProgramOwner.run a' with
  | error e a'' => rfl
  | ok owner a'' =>
    have hv1 := hloader owner (by rw [result, howner])
    have hzip : ic.indices.zip (p.accountsMetadata.map (·.originalDataLen)) =
        (ic.indices.zip p.accountsMetadata).map fun item => (item.1, item.2.originalDataLen) := by
      rw [zip_map_right]
      rfl
    by_cases hdep : owner = ext.bpfLoaderDeprecatedId
    · simp only [hdep] at hv1 ⊢
      subst hv1
      rw [hzip]
      refine congrArg (run · a'') (deserializeAccounts_eq (l := features.layout true) rfl _ _ ?_)
      exact fun k index m hk hdup b => deserializeAccountForAbiv0_eq (h.positions_at hfinished hhost hk hdup).2 b
    · simp only [hdep] at hv1 ⊢
      subst hv1
      rw [hzip]
      refine congrArg (run · a'') (deserializeAccounts_eq (l := features.layout false) rfl _ _ ?_)
      exact fun k index m hk hdup b => deserializeAccountForAbiv1_eq
        (h.positions_at hfinished hhost hk hdup).1 (h.positions_at hfinished hhost hk hdup).2 b

omit hfinished

/-- Recorded addresses belong to an account, also those of a duplicate. -/
theorem account_of_mem (hm : m ∈ p.accountsMetadata) :
    ∃ (k : Nat) (index : UInt16) (b : BorrowedInstructionAccount),
      accounts[k]? = some (.Account index b) ∧ p.accountsMetadata[k]? = some m := by
  obtain ⟨k, hk⟩ := mem_iff_getElem?.mp hm
  obtain ⟨programId, -, hser⟩ := h.serialized
  have hlength : accounts.length = p.accountsMetadata.length := by
    rw [h.length_eq, h.collects.length_eq]
  -- a duplicate refers to an account before it
  induction k using Nat.strong_induction_on with
  | h k ih =>
    have hlt := (getElem?_eq_some_iff.mp hk).1
    cases haccount : accounts[k]? with
    | none => exact absurd (getElem?_eq_none_iff.mp haccount) (by omega)
    | some account =>
      cases account with
      | Account index b => exact ⟨k, index, b, haccount, hk⟩
      | Duplicate position =>
        obtain ⟨hbefore, hsame⟩ := hser.repeated k position haccount
        exact ih _ hbefore (hsame ▸ hk)

theorem dataStart_iff (vmAddr) :
    DataStart p.accountsMetadata vmAddr ↔ vmAddr ∈ dataStarts accounts p.accountsMetadata := by
  rw [mem_dataStarts]
  constructor
  · rintro ⟨m, hm, haddr⟩
    obtain ⟨k, index, b, haccount, hk⟩ := h.account_of_mem hm
    exact ⟨k, index, b, m, haccount, hk, haddr⟩
  · rintro ⟨k, index, b, m, -, hk, haddr⟩
    exact ⟨m, mem_of_getElem? hk, haddr⟩

theorem regionsInOrder
    (hfinished : Finished isLoaderV1 features bufferAddr a (payloadHosts ext.toExternals a₁) accounts p s s' bytes) :
    RegionsInOrder (guestLayout isLoaderV1).growth p.accountsMetadata p.regions := by
  have hbehind := hfinished.behind
  refine ⟨?_, ?_, ?_, ?_⟩
  · rw [hfinished.regions]
    exact (startsAtInput_mapped_append _).mpr hbehind.startsAtInput
  · exact hfinished.ordered.imp fun hbefore => hbefore.1
  · refine noOverlap_of_before ?_ hfinished.ordered
    rw [hfinished.regions]
    exact hbehind.noGaps.append _
  · refine hfinished.isChain.imp fun r r' hfollows => ?_
    rw [h.dataStart_iff]
    exact ⟨hfollows.data, hfollows.plain⟩

/-- The record of an account is in the buffer. -/
theorem contains_record (hk : accounts[k]? = some (.Account index b)) :
    Contains p.mem (8 + recordsLen (features.layout isLoaderV1) a (accounts.take k))
      ((features.layout isLoaderV1).record b a) := by
  obtain ⟨-, before, after, hmem, hbefore⟩ := h.record_at hk
  refine ⟨before, after, ?_, ?_⟩
  · rw [hmem, record, append_assoc, append_assoc]
  · rw [hbefore, Layout.recordStart, map_map]
    rfl

theorem showsAccount
    (hfinished : Finished isLoaderV1 features bufferAddr a (payloadHosts ext.toExternals a₁) accounts p s s' bytes)
    (hhost : HostHas host bufferAddr p.mem) (hk : accounts[k]? = some (.Account index b))
    (hpayload : features.dataOutside = true → HostHas host
      (payloadHosts ext.toExternals a₁ b.getIndexInTransaction) (a₁.view b.getIndexInTransaction).data) :
    ∃ m, p.accountsMetadata[k]? = some m ∧ ShowsAccount p.regions host m (b.account a) := by
  obtain ⟨m, hm, -, hlocated⟩ := hfinished.located hhost.inSpace hk
  have hrecord := h.contains_record hk
  have hlength : (b.getData a).length < 2 ^ 64 := by
    have hspace := hfinished.space
    rw [← recordsLen_split _ _ hk] at hspace
    simp only [SerializeAccount.entry, recordLen_some, areaLen_guestLayout] at hspace
    omega
  have hlen := hhost.contains (hrecord.within (contains_len _ b a))
  rw [UInt64.toNat_ofNat', Nat.mod_eq_of_lt hlength] at hlen
  have hkeyLen (key : Pubkey) : UInt64.ofNat key.toList.length = 32 := by
    rw [Vector.length_toList]
    rfl
  refine ⟨m, hm, ⟨_, ?_, hhost.contains (hrecord.within (contains_key _ b a))⟩,
    ⟨_, ?_, hhost.contains (hrecord.within (contains_owner _ b a))⟩,
    ⟨_, ?_, hhost.contains (hrecord.within (contains_lamports _ b a))⟩, ⟨_, ?_, hlen⟩, ?_⟩
  · rw [hkeyLen]
    exact hlocated.key
  · rw [hkeyLen]
    exact hlocated.owner
  · exact hlocated.lamports
  · exact hlocated.len
  · cases hout : features.dataOutside with
    | false => exact ⟨_, hlocated.data hout, hhost.contains (hrecord.within (contains_data _ b a hout))⟩
    | true =>
      obtain ⟨addr, hlocate, hempty | rfl⟩ := hlocated.payload hout
      · have hnil : (b.account a).data = [] := length_eq_zero_iff.mp hempty
        rw [hnil]
        refine ⟨addr, ?_, addr.toNat_lt, fun _ _ h => by cases h⟩
        rw [hempty] at hlocate
        exact hlocate
      · have hhas := hpayload hout
        rw [(h.same.view _).data] at hhas
        exact ⟨_, hlocate, hhas⟩

end

/-! The aligned layout. -/

/-- What is found at a position of the buffer that is a multiple of a word. -/
theorem wordAligned_of {regions : List MemoryRegion} (haddr : 8 ∣ vmAddr.toNat)
    (hlocate : locate regions vmAddr len = some (bufferAddr + .ofNat position)) (hlt : position < 2 ^ 64)
    (hposition : 8 ∣ position) : WordAligned regions bufferAddr vmAddr len := by
  refine ⟨haddr, _, hlocate, ?_⟩
  rwa [UInt64.add_comm, UInt64.add_sub_cancel, UInt64.toNat_ofNat', Nat.mod_eq_of_lt hlt]

theorem dvd_alignOffset (n : Nat) : 8 ∣ n + alignOffset n := by
  unfold alignOffset BPF_ALIGN_OF_U128
  omega

theorem dvd_recordLen (hv1 : l.isLoaderV1 = false) (entry) : 8 ∣ l.recordLen entry := by
  cases entry with
  | none => simp [recordLen, hv1]
  | some n =>
    have halign := dvd_alignOffset n
    simp only [recordLen, dataAt, lenAt, lamportsAt, keyAt, areaLen, hv1,
      BPF_ALIGN_OF_U128, MAX_PERMITTED_DATA_INCREASE, Bool.false_eq_true, if_false]
    split <;> omega

theorem dvd_recordsLen (hv1 : l.isLoaderV1 = false) (a)
    (accounts) : 8 ∣ recordsLen l a accounts := by
  induction accounts with
  | nil => exact dvd_zero 8
  | cons account accounts ih => exact Nat.dvd_add (dvd_recordLen hv1 _) ih

theorem accountAligned (h : Serializes ext.toExternals ic rent features false bufferAddr a p accounts a₁)
    (hfinished : Finished false features bufferAddr a (payloadHosts ext.toExternals a₁) accounts p s s' bytes)
    (hhost : bufferAddr.toNat + p.mem.length < 2 ^ 64) (hm : m ∈ p.accountsMetadata) :
    WordAligned p.regions bufferAddr m.vmOwnerAddr 32 ∧ WordAligned p.regions bufferAddr m.vmLamportsAddr 8 ∧
      WordAligned p.regions bufferAddr (m.vmDataAddr - 8) 8 := by
  obtain ⟨k, index, b, haccount, hk⟩ := h.account_of_mem hm
  obtain ⟨m', hm', hrecorded, hlocated⟩ := hfinished.located hhost haccount
  obtain rfl : m = m' := Option.some.inj (hk.symm.trans hm')
  have hguest := dvd_recordsLen (l := guestLayout false) rfl a (accounts.take k)
  have hbuffer := dvd_recordsLen (l := features.layout false) rfl a (accounts.take k)
  have hmem := hfinished.length_mem_ge haccount
  have hlenAddr := lenAddr_eq hrecorded.data
  have howner := hrecorded.owner
  have hlamports := hrecorded.lamports
  have hrecord : (features.layout false).recordLen (entry a (.Account index b)) ≥ 96 := by
    simp only [SerializeAccount.entry, recordLen]
    have : (features.layout false).dataAt = 88 := rfl
    simp only [layout, Bool.false_eq_true, if_false] at this ⊢
    omega
  rw [toNat_MM_INPUT_START] at hlenAddr howner hlamports
  have hownerAt : (guestLayout false).ownerAt (b.getData a).length = 40 := rfl
  have hlamportsAt : (guestLayout false).lamportsAt = 72 := rfl
  have hlenAt : (guestLayout false).lenAt = 80 := rfl
  have hownerAt' : (features.layout false).ownerAt (b.getData a).length = 40 := rfl
  have hlamportsAt' : (features.layout false).lamportsAt = 72 := rfl
  have hlenAt' : (features.layout false).lenAt = 80 := rfl
  exact ⟨wordAligned_of (by omega) hlocated.owner (by omega) (by omega),
    wordAligned_of (by omega) hlocated.lamports (by omega) (by omega),
    wordAligned_of (by omega) hlocated.len (by omega) (by omega)⟩

/-- Where the instruction data is. -/
theorem toNat_offset (h : Finished isLoaderV1 features bufferAddr a hosts accounts p s s' bytes)
    (hpos : 8 ≤ bytes.length) :
    p.instructionDataOffset = MM_INPUT_START.toNat + (8 + recordsLen (guestLayout isLoaderV1) a accounts) + 8 := by
  have hspace := h.space
  rw [h.offset, h.behind.at_.toNat_vaddrAt (by omega)]

/-- A guest address of the input as a word. -/
theorem toNat_guestAddr (h : n < 2 ^ 62) :
    (UInt64.ofNat (MM_INPUT_START.toNat + n)).toNat = MM_INPUT_START.toNat + n := by
  rw [UInt64.toNat_ofNat', toNat_MM_INPUT_START]
  omega

theorem toNat_ofNat_offset (h : Finished isLoaderV1 features bufferAddr a hosts accounts p s s' bytes)
    (hpos : 8 ≤ bytes.length) : (UInt64.ofNat p.instructionDataOffset).toNat =
      MM_INPUT_START.toNat + (8 + recordsLen (guestLayout isLoaderV1) a accounts) + 8 := by
  have hspace := h.space
  rw [toNat_offset h hpos, add_assoc]
  exact toNat_guestAddr (by omega)

theorem toNat_lenAddr (h : Finished isLoaderV1 features bufferAddr a hosts accounts p s s' bytes)
    (hpos : 8 ≤ bytes.length) : (UInt64.ofNat p.instructionDataOffset - 8).toNat =
      MM_INPUT_START.toNat + (8 + recordsLen (guestLayout isLoaderV1) a accounts) + 0 := by
  have haddr := toNat_ofNat_offset h hpos
  have hle : (8 : UInt64) ≤ .ofNat p.instructionDataOffset :=
    UInt64.le_iff_toNat_le.mpr (show 8 ≤ (UInt64.ofNat p.instructionDataOffset).toNat by omega)
  rw [UInt64.toNat_sub_of_le _ _ hle, haddr]
  rfl

/-- The instruction data, and its length in front of it. -/
theorem showsInstruction {instructionData : List UInt8}
    (h : Finished isLoaderV1 features bufferAddr a hosts accounts p s s'
      (instructionBytes instructionData programId ++ rest)) (hhost : HostHas host bufferAddr p.mem) :
    Shows p.regions host (.ofNat p.instructionDataOffset - 8) (toLe 8 instructionData.length) ∧
      Shows p.regions host (.ofNat p.instructionDataOffset) instructionData := by
  have hlength := length_instructionBytes instructionData programId
  have hspace := h.space
  rw [length_append] at hspace
  have hpos : 8 ≤ (instructionBytes instructionData programId ++ rest).length := by
    rw [length_append]
    omega
  have hlt : 8 < (instructionBytes instructionData programId ++ rest).length := by
    rw [length_append]
    omega
  have hdata : instructionData.length < 2 ^ 64 := by omega
  refine ⟨h.shows_last hhost (toNat_lenAddr h hpos) ⟨[], instructionData ++ (programId.toList ++ rest), ?_, rfl⟩ (by omega),
    h.shows_last hhost (toNat_ofNat_offset h hpos) ⟨toLe 8 instructionData.length, programId.toList ++ rest, ?_, length_toLe _ _⟩ hlt⟩ <;>
  · rw [instructionBytes, UInt64.toNat_ofNat', Nat.mod_eq_of_lt hdata]
    simp

/-- A pointer in the array of pointers. -/
theorem contains_pointer {metas : List SerializedAccountMetadata} (hk : metas[k]? = some m) :
    Contains (metas.flatMap fun m => toLe 8 m.vmDataAddr.toNat) (8 * k) (toLe 8 m.vmDataAddr.toNat) := by
  induction metas generalizing k with
  | nil => cases hk
  | cons m' metas ih =>
    cases k with
    | zero =>
      cases hk
      exact ⟨[], metas.flatMap fun m => toLe 8 m.vmDataAddr.toNat, by rw [flatMap_cons, nil_append], rfl⟩
    | succ k =>
      obtain ⟨before, after, hflat, hlength⟩ := ih hk
      refine ⟨toLe 8 m'.vmDataAddr.toNat ++ before, after, ?_, ?_⟩
      · rw [flatMap_cons, hflat, append_assoc]
      · rw [length_append, length_toLe]
        omega

theorem wordsAligned
    (h : Serializes ext.toExternals ic rent features false bufferAddr a p accounts a₁)
    (hfinished : Finished false features bufferAddr a (payloadHosts ext.toExternals a₁) accounts p s s'
      (instructionBytes ic.instructionData programId ++
        pointersBytes (pointersOffset features false a accounts ic.instructionData) p.accountsMetadata))
    (hhost : HostHas host bufferAddr p.mem) : WordsAligned ic features bufferAddr host p := by
  have hlength := length_instructionBytes ic.instructionData programId
  have hguest := dvd_recordsLen (l := guestLayout false) rfl a accounts
  have hbuffer := dvd_recordsLen (l := features.layout false) rfl a accounts
  have hspace := hfinished.space
  have hinSpace := hhost.inSpace
  rw [hfinished.mem, length_append, length_append, hfinished.length_behind] at hinSpace
  rw [length_append] at hspace
  have hpos : 8 ≤ (instructionBytes ic.instructionData programId ++
      pointersBytes (pointersOffset features false a accounts ic.instructionData) p.accountsMetadata).length := by
    rw [length_append]
    omega
  have hMM := toNat_MM_INPUT_START
  refine ⟨fun m hm => h.accountAligned hfinished hhost.inSpace hm, ?_, fun hdirect => ?_⟩
  · have haddr := toNat_lenAddr hfinished hpos
    have hlocate : locate p.regions (.ofNat p.instructionDataOffset - 8) 8 = _ :=
      hfinished.locate_last hhost.inSpace haddr (by omega) (show 0 + 8 ≤ _ by omega)
    rw [hfinished.length_behind] at hlocate
    exact wordAligned_of (by omega) hlocate (by omega) (by omega)
  · have hpointers : pointersOffset features false a accounts ic.instructionData =
        some (alignOffset (serializedSize false features.dataOutside a accounts ic.instructionData)) :=
      if_pos ⟨rfl, hdirect⟩
    have hsize : serializedSize false features.dataOutside a accounts ic.instructionData =
        8 + recordsLen (features.layout false) a accounts + (8 + ic.instructionData.length + 32) :=
      serializedSize_eq false features.dataOutside ic.instructionData
    have halign := dvd_alignOffset (serializedSize false features.dataOutside a accounts ic.instructionData)
    have hle := alignOffset_le (serializedSize false features.dataOutside a accounts ic.instructionData)
    have hoffset := toNat_offset hfinished hpos
    rw [hpointers] at hspace hinSpace hfinished
    generalize alignOffset (serializedSize false features.dataOutside a accounts ic.instructionData) = pad at *
    rw [length_pointersBytes] at hspace hinSpace
    simp only [Option.map_some, Option.getD_some] at hspace hinSpace
    have hbytes : (instructionBytes ic.instructionData programId ++ pointersBytes (some pad) p.accountsMetadata).length =
        8 + ic.instructionData.length + 32 + (pad + p.accountsMetadata.length * 8) := by
      rw [length_append, hlength, length_pointersBytes]
      rfl
    refine ⟨p.instructionDataOffset + ic.instructionData.length + 32 + pad, by omega, by omega, by omega,
      fun k m hk => ?_⟩
    have hlt := (getElem?_eq_some_iff.mp hk).1
    have haddr : (UInt64.ofNat (p.instructionDataOffset + ic.instructionData.length + 32 + pad + 8 * k)).toNat =
        MM_INPUT_START.toNat + (8 + recordsLen (guestLayout false) a accounts) +
          (8 + ic.instructionData.length + 32 + (pad + 8 * k)) := by
      rw [UInt64.toNat_ofNat']
      omega
    have hcontains : Contains (instructionBytes ic.instructionData programId ++
        pointersBytes (some pad) p.accountsMetadata) (8 + ic.instructionData.length + 32 + (pad + 8 * k))
        (toLe 8 m.vmDataAddr.toNat) := by
      refine .within ⟨instructionBytes ic.instructionData programId, [], by rw [List.append_nil], hlength⟩ (.within ?_
        (contains_pointer hk))
      exact ⟨zeros pad, [], by rw [List.append_nil]; rfl, length_zeros pad⟩
    have hlocate : locate p.regions _ 8 = _ := hfinished.locate_last hhost.inSpace haddr (by omega) (by
      show _ + 8 ≤ _
      omega)
    rw [hfinished.length_behind] at hlocate
    exact ⟨wordAligned_of (by omega) hlocate (by omega) (by omega),
      hfinished.shows_last hhost haddr hcontains (by omega)⟩

end Serializes

/-- The regions of a program input follow one another from its start, the recorded
addresses show the accounts through them, and deserialization reads where they
resolve to: for either layout, any features and duplicates. The input and, if it is
mapped directly, the data of the accounts lie in the memory of the host, and no host
has as much memory as `hspace` excludes. -/
theorem program_input_layout {owner : Pubkey} {host : UInt64 → UInt8}
    (hrun : (serializeParameters ext ic rent features bufferAddr).run a = .ok p a₁)
    (howner : result ic.getProgramOwner a = .ok owner)
    (hspace : ic.addressSpace (owner = ext.bpfLoaderDeprecatedId) p.accountsMetadata < 2 ^ 62)
    (hhost : HostHas host bufferAddr p.mem)
    (hpayload : features.dataOutside = true → ∀ ia ∈ ic.instructionAccounts, HostHas host
      (ext.payloadAddr ia.indexInTransaction (a₁.view ia.indexInTransaction).privateFields.payload)
      (a₁.view ia.indexInTransaction).data) :
    InputLayout ext ic rent features (owner = ext.bpfLoaderDeprecatedId) bufferAddr host a p := by
  obtain ⟨owner', accounts, hreadable, h⟩ := serializeParameters_ok hrun
  obtain ⟨_, hreads, -⟩ := run_getProgramOwner hreadable
  obtain rfl : owner' = owner := by
    rw [result, hreads] at howner
    exact Except.ok.inj howner
  obtain ⟨s, s', programId, hfinished⟩ := h.finished hspace
  refine ⟨h.regionsInOrder hfinished, fun index hindex hdup => ?_, fun index hindex position hdup => ?_,
    Serializes.showsInstruction hfinished hhost, h.reads hfinished hhost.inSpace, fun hv2 => ?_⟩
  · obtain ⟨ia, hia⟩ := exists_instructionAccount hdup
    obtain ⟨-, haccount, -, -⟩ := h.account_at hindex hdup hia
    obtain ⟨m, hm, hshows⟩ := h.showsAccount hfinished hhost haccount fun hout =>
      hpayload hout ia (mem_of_getElem? hia)
    exact ⟨ia, m, hia, hm, hshows⟩
  · obtain ⟨k, hk⟩ := mem_iff_getElem?.mp hindex
    obtain rfl := getElem?_indices hk
    obtain ⟨account, haccount, hcollects⟩ := h.collected_at hk
    cases hcollects with
    | account hdup' =>
      rw [hdup] at hdup'
      cases hdup'
    | @duplicate position' hdup' =>
      obtain rfl : position = position' := by simpa using hdup.symm.trans hdup'
      obtain ⟨programId', -, hser⟩ := h.serialized
      have hsame := (hser.repeated index.toNat position haccount).2
      have hlt : index.toNat < p.accountsMetadata.length := h.length_eq ▸ (getElem?_eq_some_iff.mp hk).1
      have hm := getElem?_eq_getElem hlt
      exact ⟨_, hm, hsame ▸ hm⟩
  · rw [hv2] at h hfinished
    exact h.wordsAligned hfinished hhost

end Layout

namespace Repeated

/-- The program is of loader v1, or of a newer one, and then the data is mapped directly. -/
def extOf (mapped : Bool) : SerializeExternals :=
  { ext with bpfLoaderDeprecatedId := if mapped then .replicate 32 6 else .replicate 32 3 }

def inputOf (mapped : Bool) : EStateM.Result Fault TransactionAccounts SerializedParameters :=
  (serializeParameters (extOf mapped) ic rent ⟨true, mapped, mapped⟩ 4096).run accounts

/-- A host with the data of the account at its first address, and the buffer. -/
def host (buffer : List UInt8) (x : UInt64) : UInt8 :=
  (if x < 4096 then [1, 2, 3][x.toNat]? else buffer[(x - 4096).toNat]?).getD 0

theorem hostHas_host (h : buffer.length < 1000) : HostHas (host buffer) 4096 buffer := by
  refine ⟨show 4096 + buffer.length < 2 ^ 64 by omega, fun i x hx => ?_⟩
  have hlt := (getElem?_eq_some_iff.mp hx).1
  have hi : (UInt64.ofNat i).toNat = i := UInt64.toNat_ofNat_of_lt' (show i < 2 ^ 64 by omega)
  have hbehind : ¬ 4096 + UInt64.ofNat i < 4096 := by
    rw [UInt64.lt_iff_toNat_lt, UInt64.toNat_add, hi]
    show ¬ (4096 + i) % 2 ^ 64 < 4096
    omega
  rw [host, if_neg hbehind, UInt64.add_comm, UInt64.add_sub_cancel, hi, hx]
  rfl

theorem hostHas_data : HostHas (host buffer) 0 [1, 2, 3] := by
  refine ⟨by decide, fun i x hx => ?_⟩
  match i, hx with
  | 0, rfl => rfl
  | 1, rfl => rfl
  | 2, rfl => rfl

end Repeated

/-- The layout of an input of loader v1, and of one whose data is mapped directly. -/
theorem program_input_layout_repeated :
    (∃ p a₁, inputOf false = .ok p a₁ ∧
      InputLayout (extOf false) ic rent ⟨true, false, false⟩ true 4096 (host p.mem) Repeated.accounts p) ∧
    ∃ p a₁, inputOf true = .ok p a₁ ∧
      InputLayout (extOf true) ic rent ⟨true, true, true⟩ false 4096 (host p.mem) Repeated.accounts p := by
  have hlayout (mapped : Bool) : ∃ p a₁, inputOf mapped = .ok p a₁ ∧
      InputLayout (extOf mapped) ic rent ⟨true, mapped, mapped⟩ (!mapped) 4096 (host p.mem) Repeated.accounts p := by
    have hok : (match inputOf mapped with
      | .ok p a₁ => decide (ic.addressSpace (!mapped) p.accountsMetadata < 2 ^ 62 ∧ p.mem.length < 1000 ∧
        (a₁.view 1).data = [1, 2, 3])
      | .error _ _ => false) = true := by cases mapped <;> decide +kernel
    cases h : inputOf mapped with
    | error e a₁ => simp [h] at hok
    | ok p a₁ =>
      obtain ⟨hspace, hshort, hdata⟩ : ic.addressSpace (!mapped) p.accountsMetadata < 2 ^ 62 ∧ p.mem.length < 1000 ∧
        (a₁.view 1).data = [1, 2, 3] := by simpa [h] using hok
      have howner : result ic.getProgramOwner Repeated.accounts = .ok (.replicate 32 3) := by decide +kernel
      have hv1 : decide ((.replicate 32 3 : Pubkey) = (extOf mapped).bpfLoaderDeprecatedId) = !mapped := by
        cases mapped <;> decide
      have hlayout := program_input_layout h howner (hv1 ▸ hspace) (hostHas_host hshort) fun _ ia hia => ?_
      · exact ⟨p, a₁, rfl, hv1 ▸ hlayout⟩
      · obtain rfl : ia = ⟨1, false, true⟩ := by simpa [ic] using hia
        rw [hdata]
        exact hostHas_data
  exact ⟨hlayout false, hlayout true⟩

end Svm
