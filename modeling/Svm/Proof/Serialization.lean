import Svm.Proof.ProgramInput

/-!
# What serialization writes

A successful serialization is followed once, account by account: `Writes` says
what the serializer is after an account, `Written` after a list of them, as a
function of what it was and of the accounts. The layout of the buffer is read
off that, and with `deserialize_holds` the round trip
(`serialization_round_trip`).
-/

namespace Svm

open Machine Run Bytes Sbpf InstructionContext EStateM BorrowedInstructionAccount UInt64
open List hiding append_nil getElem?_eq_some_iff
open Serializer hiding new
open TransactionAccounts hiding mk

variable {b : BorrowedInstructionAccount} {account : SerializeAccount} {m : SerializedAccountMetadata}
  {isLoaderV1 : Bool} {indices : List UInt16} {index : UInt16}

/-! ## Records -/

/-- Bytes of padding. -/
def zeros (n : Nat) : List UInt8 := .replicate n 0

@[simp] theorem length_zeros (n : Nat) : (zeros n).length = n := length_replicate ..

namespace Layout

variable (l : Layout) (b : BorrowedInstructionAccount) (a : TransactionAccounts)

/-- A record up to the data. -/
def head : List UInt8 :=
  if l.isLoaderV1 then
    [NON_DUP_MARKER, boolByte b.isSigner, boolByte b.isWritable] ++ (b.getKey a).toList ++
      toLe 8 (b.getLamports a).toNat ++ toLe 8 (ofNat (b.getData a).length).toNat
  else
    [NON_DUP_MARKER, boolByte b.isSigner, boolByte b.isWritable, boolByte (b.isExecutable a), 0, 0, 0, 0] ++
      (b.getKey a).toList ++ (b.getOwner a).toList ++ toLe 8 (b.getLamports a).toNat ++
      toLe 8 (ofNat (b.getData a).length).toNat

/-- The data and its padding. -/
def area (data : List UInt8) : List UInt8 :=
  if l.dataOutside then (if l.isLoaderV1 then [] else zeros BPF_ALIGN_OF_U128)
  else if l.isLoaderV1 then data
  else data ++ zeros (MAX_PERMITTED_DATA_INCREASE + alignOffset data.length)

/-- A record behind the data. -/
def tail : List UInt8 :=
  if l.isLoaderV1 then (b.getOwner a).toList ++ [boolByte (b.isExecutable a)] ++ toLe 8 U64.max.toNat
  else toLe 8 U64.max.toNat

/-- The record of a duplicate. -/
def duplicate (position : UInt16) : List UInt8 :=
  if l.isLoaderV1 then [.ofNat position.toNat] else [.ofNat position.toNat, 0, 0, 0, 0, 0, 0, 0]

theorem length_head : (l.head b a).length = l.dataAt := by
  unfold head dataAt lenAt lamportsAt keyAt
  split <;> simp

theorem length_area (data) : (l.area data).length = l.areaLen data.length := by
  unfold area areaLen
  split
  · split <;> simp
  · split
    · rfl
    · simp [add_assoc]

theorem length_tail : (l.tail b a).length = if l.isLoaderV1 then 32 + 1 + 8 else 8 := by
  unfold tail
  split <;> simp

theorem length_duplicate (position) : (l.duplicate position).length = l.recordLen none := by
  unfold duplicate recordLen
  split <;> simp

end Layout

/-! ## The serializer after an account -/

namespace Serializer

variable (s : Serializer)

def layout : Layout := s.features.layout s.isLoaderV1

@[simp] theorem append_append (x y) : (s.append x).append y = s.append (x ++ y) := by
  simp [append]

@[simp] theorem append_nil : s.append [] = s := by simp [append]

@[simp] theorem layout_append (x) : (s.append x).layout = s.layout := rfl

@[simp] theorem buffer_append (x) : (s.append x).buffer = s.buffer ++ x := rfl

variable (remap : MemoryRegion → MemoryRegion)

/-- The serializer with the region of the account pushed, made from the one that is
open, if the account has address space. -/
def pushReserved (reserved : Nat) : Serializer :=
  if reserved = 0 then s
  else if s.features.accountDataDirectMapping then
    { s with
      regions := s.regions ++ [remap s.openRegion]
      vaddr := s.vaddr + .ofNat reserved }
  else { s.closeRegion with regions := s.regions ++ [remap s.openRegion] }

/-- The serializer with the padding behind a mapped account. -/
def padMapped (dataLen : Nat) : Serializer :=
  if s.isLoaderV1 then s
  else if s.features.accountDataDirectMapping then
    let s := s.append (zeros BPF_ALIGN_OF_U128)
    { s with regionStart := s.regionStart + (BPF_ALIGN_OF_U128 - alignOffset dataLen) }
  else s.append (zeros (alignOffset dataLen))

variable (data : List UInt8)

/-- The bytes of a mapped account in the buffer, up to the end of its region. -/
def mappedData : List UInt8 :=
  if s.features.accountDataDirectMapping then []
  else data ++ if s.isLoaderV1 then [] else zeros MAX_PERMITTED_DATA_INCREASE

/-- The serializer with the data of an account written. -/
def putData : Serializer :=
  if s.features.virtualAddressSpaceAdjustments then
    ((s.closeRegion.append (s.mappedData data)).pushReserved remap
      (addressSpaceReserved s.isLoaderV1 data.length)).padMapped data.length
  else s.append (data ++ if s.isLoaderV1 then [] else zeros (MAX_PERMITTED_DATA_INCREASE + alignOffset data.length))

/-- The guest address of the data of the next account. -/
def dataVaddr : UInt64 :=
  if s.features.virtualAddressSpaceAdjustments then s.closeRegion.vaddr
  else U64.satAdd s.vaddr (.ofNat s.buffer.length)

/-- The guest address of the byte `n` bytes on, in the open region. -/
def vaddrAt (n : Nat) : UInt64 := (s.append (zeros n)).nextVaddr

theorem nextVaddr_append (x) : (s.append x).nextVaddr = s.vaddrAt x.length := by
  simp [vaddrAt, nextVaddr, append]

theorem putData_layout : (s.putData remap data).layout = s.layout := by
  unfold putData pushReserved padMapped
  repeat' split
  all_goals rfl

theorem putData_buffer : (s.putData remap data).buffer = s.buffer ++ s.layout.area data := by
  unfold putData layout InputFeatures.layout Layout.area InputFeatures.dataOutside
  by_cases hvasa : s.features.virtualAddressSpaceAdjustments
  · have hpush (t : Serializer) (n : Nat) : (t.pushReserved remap n).buffer = t.buffer := by
      unfold pushReserved
      repeat' split
      all_goals rfl
    have hloader (t : Serializer) (n : Nat) : (t.pushReserved remap n).isLoaderV1 = t.isLoaderV1 := by
      unfold pushReserved
      repeat' split
      all_goals rfl
    have hfeatures (t : Serializer) (n : Nat) : (t.pushReserved remap n).features = t.features := by
      unfold pushReserved
      repeat' split
      all_goals rfl
    by_cases hdm : s.features.accountDataDirectMapping <;> by_cases hv1 : s.isLoaderV1 <;>
      simp [hvasa, hdm, hv1, padMapped, hpush, hloader, hfeatures, mappedData, append, closeRegion, zeros]
  · by_cases hv1 : s.isLoaderV1 <;> simp [hvasa, hv1]

end Serializer

/-! ## Successful writes -/

section Steps

variable {st : Serializing} {ext : Externals}

/-- The serializer changed to `s`. -/
def Serializing.put (st : Serializing) (s : Serializer) : Serializing := { st with serializer := s }

@[simp] theorem Serializing.put_accounts (s) : (st.put s).accounts = st.accounts := rfl
@[simp] theorem Serializing.put_serializer (s) : (st.put s).serializer = s := rfl
@[simp] theorem Serializing.put_put (s s') : (st.put s).put s' = st.put s' := rfl

theorem run_writeAll (value) :
    (writeAll value).run st = .ok st.serializer.nextVaddr (st.put (st.serializer.append value)) := rfl

theorem run_writeU8 (value : UInt8) :
    (writeU8 value).run st = .ok st.serializer.nextVaddr (st.put (st.serializer.append [value])) := rfl

theorem run_writeU64 (value) :
    (writeU64 value).run st = .ok st.serializer.nextVaddr (st.put (st.serializer.append (toLe 8 value.toNat))) := rfl

theorem fillWrite_ok (h : (fillWrite num 0).run st = .ok () st') :
    st' = st.put (st.serializer.append (zeros num)) := by
  simp only [fillWrite, run_bind, run_get] at h
  split at h <;> cases h
  rfl

theorem pushRegion_ok (h : pushRegion.run st = .ok () st') : st' = st.put st.serializer.closeRegion := by
  simp only [pushRegion, run_bind, run_get] at h
  split at h <;> cases h
  rfl

theorem writePadding_ok (h : (writePadding num).run st = .ok () st') :
    st' = st.put (st.serializer.append (if st.serializer.isLoaderV1 then [] else zeros num)) := by
  simp only [writePadding, run_bind, run_get] at h
  split at h
  · cases h
    rename_i hv1
    simp [hv1, Serializing.put]
  · rename_i hv1
    rw [fillWrite_ok h, if_neg hv1]

theorem writeMappedData_ok (h : (writeMappedData b).run st = .ok () st') :
    st' = st.put (st.serializer.append (st.serializer.mappedData (b.getData st.accounts))) := by
  simp only [writeMappedData, run_bind, run_get] at h
  split at h
  · cases h
    rename_i hdm
    simp [mappedData, hdm, Serializing.put]
  · rename_i hdm
    rw [writePadding_ok h]
    simp only [mappedData, if_neg hdm, append_append]
    rfl

theorem vmAddr_modifyMemoryRegionOfAccount (a) (region) :
    (modifyMemoryRegionOfAccount b a region).vmAddr = region.vmAddr := by
  simp only [modifyMemoryRegionOfAccount]
  split <;> rfl

theorem pushAccountRegion_ok (h : (pushAccountRegion b).run st = .ok () st') :
    st' = st.put { st.serializer.closeRegion with
      regions := st.serializer.regions ++ [modifyMemoryRegionOfAccount b st.accounts st.serializer.openRegion] } := by
  obtain ⟨_, st1, h1, h⟩ := bind_inv h
  obtain rfl := pushRegion_ok h1
  cases h
  simp [Serializing.put, closeRegion, modifyLast_concat]

/-- Getting the data slice of an account that holds it alone. Only the account itself is
changed by it. -/
theorem getDataMut_same (hi : b.getIndexInTransaction.toNat < a.len) (h : b.getDataMut.run a = .ok () a') :
    SameAccounts a a' ∧ ∀ i, b.getIndexInTransaction ≠ i → a'.view i = a.view i := by
  obtain ⟨e, he⟩ | ⟨-, v, hv, hdata, he⟩ := b.run_getDataMut hi
  · rw [he] at h
    cases h
  · rw [he] at h
    cases h
    refine ⟨.put ?_, fun i hne => view_put_ne _ hne _⟩
    rw [hv.eq]
    exact ⟨rfl, rfl, rfl, hdata, rfl, rfl⟩

/-- The host address of the payload of each account. -/
def payloadHosts (ext : Externals) (a : TransactionAccounts) (i : UInt16) : UInt64 :=
  ext.payloadAddr i (a.view i).privateFields.payload

/-- A region over the data of an account, where `host` is its payload. -/
structure MapsPayload (host : UInt64) (dataLen : Nat) (region : MemoryRegion) : Prop where
  hostAddr : region.hostAddr = host
  len : region.len = .ofNat dataLen
  vmGapShift : region.vmGapShift = 63

theorem mapsPayload_payloadRegion (a) (writable : Bool) (vaddr) :
    MapsPayload (payloadHosts ext a b.getIndexInTransaction) (b.getData a).length
      (payloadRegion ext b a writable vaddr) := ⟨rfl, rfl, rfl⟩

theorem MapsPayload.handled (payload) (h : MapsPayload host dataLen region) :
    MapsPayload host dataLen { region with accessViolationHandlerPayload := payload } :=
  ⟨h.hostAddr, h.len, h.vmGapShift⟩

theorem createMemoryRegionOfAccount_ok {vaddr : UInt64} (hi : b.getIndexInTransaction.toNat < a.len)
    (h : (createMemoryRegionOfAccount ext b vaddr).run a = .ok region a') :
    region.vmAddr = vaddr ∧ SameAccounts a a' ∧ (∀ i, b.getIndexInTransaction ≠ i → a'.view i = a.view i) ∧
      MapsPayload (payloadHosts ext a' b.getIndexInTransaction) (b.getData a).length region := by
  simp only [createMemoryRegionOfAccount, run_bind, run_get] at h
  cases hc : b.canDataBeChanged a with
  | error e =>
    rw [hc] at h
    cases h
    exact ⟨rfl, .refl a, fun _ _ => rfl, mapsPayload_payloadRegion a false vaddr⟩
  | ok _ =>
    simp only [hc] at h
    split at h
    · cases h
      exact ⟨rfl, .refl a, fun _ _ => rfl, (mapsPayload_payloadRegion a false vaddr).handled _⟩
    · obtain ⟨_, a₁, h1, h⟩ := bind_inv h
      cases h
      obtain ⟨hsame, hframe⟩ := getDataMut_same hi h1
      have hdata : b.getData a' = b.getData a := (hsame.view _).data
      refine ⟨rfl, hsame, hframe, ?_⟩
      rw [← hdata]
      exact (mapsPayload_payloadRegion a' true vaddr).handled _

theorem onBorrowed_ok (h : (onBorrowed x).run st = .ok r st') :
    ∃ a, x.run st.accounts = .ok r a ∧ st' = ⟨a, st.serializer⟩ := by
  obtain ⟨a, hx, rfl⟩ := run_zoom_ok.mp (run_mapError_ok.mp h)
  exact ⟨a, hx, rfl⟩

theorem pushPayloadRegion_ok (hi : b.getIndexInTransaction.toNat < st.accounts.len)
    (h : (pushPayloadRegion ext b reserved).run st = .ok () st') :
    ∃ region, region.vmAddr = st.serializer.vaddr ∧ SameAccounts st.accounts st'.accounts ∧
      (∀ i, b.getIndexInTransaction ≠ i → st'.accounts.view i = st.accounts.view i) ∧
      MapsPayload (payloadHosts ext st'.accounts b.getIndexInTransaction) (b.getData st.accounts).length region ∧
      st'.serializer = { st.serializer with
        regions := st.serializer.regions ++ [region], vaddr := st.serializer.vaddr + .ofNat reserved } := by
  simp only [pushPayloadRegion, run_bind, run_get] at h
  cases hx : (onBorrowed (createMemoryRegionOfAccount ext b st.serializer.vaddr)).run st with
  | error e st1 => simp [hx] at h
  | ok region st1 =>
    obtain ⟨a, ha, rfl⟩ := onBorrowed_ok hx
    obtain ⟨hvaddr, hsame, hframe, hmaps⟩ := createMemoryRegionOfAccount_ok hi ha
    rw [hx] at h
    cases h
    exact ⟨region, hvaddr, hsame, hframe, hmaps, rfl⟩

/-- A map from the open region to the region of an account in its place: over the same
bytes, or over the payload at `host` if that is mapped directly. -/
structure RegionOf (direct : Bool) (host : UInt64) (dataLen : Nat) (remap : MemoryRegion → MemoryRegion) :
    Prop where
  vmAddr : ∀ region, (remap region).vmAddr = region.vmAddr
  len : ∀ region, (remap region).len = .ofNat dataLen
  hostAddr : ∀ region, (remap region).hostAddr = if direct then host else region.hostAddr
  vmGapShift : ∀ region : MemoryRegion, region.vmGapShift = 63 → (remap region).vmGapShift = 63

theorem RegionOf.exists (direct : Bool) (host : UInt64) (dataLen : Nat) :
    ∃ remap, RegionOf direct host dataLen remap :=
  ⟨fun region => { region with len := .ofNat dataLen, hostAddr := if direct then host else region.hostAddr },
    fun _ => rfl, fun _ => rfl, fun _ => rfl, fun _ h => h⟩

theorem regionOf_modifyMemoryRegionOfAccount (a) (host : UInt64) (hdirect : ¬ direct = true) :
    RegionOf direct host (b.getData a).length (modifyMemoryRegionOfAccount b a) := by
  refine ⟨vmAddr_modifyMemoryRegionOfAccount a, fun region => ?_, fun region => ?_, fun region h => ?_⟩ <;>
    simp only [modifyMemoryRegionOfAccount, if_neg hdirect] <;> split <;> first | rfl | exact h

theorem MapsPayload.regionOf (h : MapsPayload host dataLen region) :
    RegionOf true host dataLen fun open_ => { region with vmAddr := open_.vmAddr } :=
  ⟨fun _ => rfl, fun _ => h.len, fun _ => h.hostAddr, fun _ _ => h.vmGapShift⟩

/-- What writing the data of an account has done to the accounts, and the region that
was made for it. -/
structure MapsAccount (ext : Externals) (b : BorrowedInstructionAccount) (st st' : Serializing)
    (remap : MemoryRegion → MemoryRegion) : Prop where
  same : SameAccounts st.accounts st'.accounts
  frame : ∀ i, b.getIndexInTransaction ≠ i → st'.accounts.view i = st.accounts.view i
  region : RegionOf st.serializer.features.accountDataDirectMapping
    (payloadHosts ext st'.accounts b.getIndexInTransaction) (b.getData st.accounts).length remap

theorem pushReservedRegion_ok (hi : b.getIndexInTransaction.toNat < st.accounts.len)
    (h : (pushReservedRegion ext b reserved).run st = .ok () st') : ∃ remap, MapsAccount ext b st st' remap ∧
      st'.serializer = st.serializer.pushReserved remap reserved := by
  simp only [pushReservedRegion, run_bind, run_get] at h
  simp only [pushReserved]
  split at h
  · cases h
    rename_i hzero
    obtain ⟨remap, hregion⟩ := RegionOf.exists st.serializer.features.accountDataDirectMapping
      (payloadHosts ext st.accounts b.getIndexInTransaction) (b.getData st.accounts).length
    exact ⟨remap, ⟨.refl _, fun _ _ => rfl, hregion⟩, by rw [if_pos hzero]⟩
  · rename_i hzero
    split at h
    · rename_i hdm
      obtain ⟨region, hvaddr, hsame, hframe, hmaps, hser⟩ := pushPayloadRegion_ok hi h
      refine ⟨_, ⟨hsame, hframe, hdm ▸ hmaps.regionOf⟩, ?_⟩
      rw [if_neg hzero, if_pos hdm, hser]
      have hopen : st.serializer.openRegion.vmAddr = region.vmAddr := hvaddr.symm
      simp [hopen]
    · rename_i hdm
      obtain rfl := pushAccountRegion_ok h
      exact ⟨_, ⟨.refl _, fun _ _ => rfl, regionOf_modifyMemoryRegionOfAccount _ _ hdm⟩,
        by rw [if_neg hzero, if_neg hdm, Serializing.put_serializer]⟩

theorem writeMappedPadding_ok (h : (writeMappedPadding b).run st = .ok () st') :
    st' = st.put (st.serializer.padMapped (b.getData st.accounts).length) := by
  simp only [writeMappedPadding, run_bind, run_get] at h
  simp only [padMapped]
  split at h
  · cases h
    rename_i hv1
    simp [hv1, Serializing.put]
  · rename_i hv1
    split at h
    · rename_i hdm
      obtain ⟨_, st1, h1, h⟩ := bind_inv h
      obtain rfl := fillWrite_ok h1
      cases h
      simp [hv1, hdm, Serializing.put]
    · rename_i hdm
      rw [fillWrite_ok h, if_neg hv1, if_neg hdm]

/-- `write_account`. -/
theorem writeAccount_ok (hi : b.getIndexInTransaction.toNat < st.accounts.len)
    (h : (writeAccount ext b).run st = .ok vmDataAddr st') :
    vmDataAddr = st.serializer.dataVaddr ∧ ∃ remap, MapsAccount ext b st st' remap ∧
      st'.serializer = st.serializer.putData remap (b.getData st.accounts) := by
  obtain ⟨_, _, h0, h⟩ := bind_inv h
  cases h0
  simp only [dataVaddr, putData]
  split at h
  · rename_i hvasa
    simp only [if_pos hvasa]
    obtain ⟨_, st1, h1, h⟩ := bind_inv h
    obtain rfl := pushRegion_ok h1
    obtain ⟨_, _, h1, h⟩ := bind_inv h
    cases h1
    obtain ⟨_, st2, h2, h⟩ := bind_inv h
    obtain rfl := writeMappedData_ok h2
    obtain ⟨_, st3, h3, h⟩ := bind_inv h
    obtain ⟨remap, hmaps, hser⟩ := pushReservedRegion_ok (by exact hi) h3
    obtain ⟨_, st4, h4, h⟩ := bind_inv h
    obtain rfl := writeMappedPadding_ok h4
    cases h
    refine ⟨rfl, remap, ⟨hmaps.same, hmaps.frame, hmaps.region⟩, ?_⟩
    have hdata : b.getData st3.accounts = b.getData st.accounts := (hmaps.same.view _).data
    rw [hser, hdata]
    rfl
  · rename_i hvasa
    simp only [if_neg hvasa]
    obtain ⟨_, st1, h1, h⟩ := bind_inv h
    cases h1
    obtain ⟨_, st2, h2, h⟩ := bind_inv h
    obtain rfl := writePadding_ok h2
    cases h
    obtain ⟨remap, hregion⟩ := RegionOf.exists st.serializer.features.accountDataDirectMapping
      (payloadHosts ext st.accounts b.getIndexInTransaction) (b.getData st.accounts).length
    refine ⟨rfl, remap, ⟨.refl _, fun _ _ => rfl, hregion⟩, ?_⟩
    simp only [append_append]
    rfl

end Steps

/-! ## An account after the other -/

/-- What the serializer is after an account of the accounts `a`, with payloads at `hosts`,
and the metadata. -/
inductive Serializer.Writes (a : TransactionAccounts) (hosts : UInt16 → UInt64) (s : Serializer) :
    SerializeAccount → SerializedAccountMetadata → Serializer → Prop
  | account {index : UInt16} {b : BorrowedInstructionAccount} {s1 : Serializer}
      {remap : MemoryRegion → MemoryRegion}
      (region : RegionOf s.features.accountDataDirectMapping (hosts b.getIndexInTransaction) (b.getData a).length
        remap)
      (data : s1 = (s.append (s.layout.head b a)).putData remap (b.getData a)) :
      Writes a hosts s (.Account index b)
        { originalDataLen := (b.getData a).length
          vmDataAddr := (s.append (s.layout.head b a)).dataVaddr
          vmKeyAddr := s.vaddrAt s.layout.keyAt
          vmLamportsAddr := s.vaddrAt s.layout.lamportsAt
          vmOwnerAddr := if s.isLoaderV1 then s1.nextVaddr else s.vaddrAt (s.layout.ownerAt (b.getData a).length) }
        (s1.append (s.layout.tail b a))
  | duplicate {position : UInt16} {metadata : SerializedAccountMetadata} :
      Writes a hosts s (.Duplicate position) metadata (s.append (s.layout.duplicate position))

/-- What the serializer is after a list of accounts. -/
inductive Serializer.Written (a : TransactionAccounts) (hosts : UInt16 → UInt64) :
    Serializer → List SerializeAccount → List SerializedAccountMetadata → Serializer → Prop
  | nil {s : Serializer} : Written a hosts s [] [] s
  | cons {s s1 s2 : Serializer} {account : SerializeAccount} {accounts : List SerializeAccount}
      {metadata : SerializedAccountMetadata} {rest : List SerializedAccountMetadata}
      (head : s.Writes a hosts account metadata s1) (tail : Written a hosts s1 accounts rest s2) :
      Written a hosts s (account :: accounts) (metadata :: rest) s2

section Accounts

variable {a : TransactionAccounts} {st st' : Serializing} {ext : Externals}
  {metas : List SerializedAccountMetadata} {position : UInt16} {l : Layout} {a' : TransactionAccounts}
  {hosts : UInt16 → UInt64} {s s1 : Serializer}
  {p : SerializedParameters}

/-- The account of the transaction that is borrowed. -/
def SerializeAccount.borrows : SerializeAccount → Option UInt16
  | .Account _ b => some b.getIndexInTransaction
  | .Duplicate _ => none

/-- What writing an account has done. -/
structure WritesAccount (ext : Externals) (st : Serializing) (account : SerializeAccount)
    (m : SerializedAccountMetadata) (st' : Serializing) : Prop where
  same : SameAccounts st.accounts st'.accounts
  frame : ∀ i, account.borrows ≠ some i → st'.accounts.view i = st.accounts.view i
  writes : st.serializer.Writes st.accounts (payloadHosts ext st'.accounts) account m st'.serializer

/-- The borrowed account is one of the transaction. -/
def SerializeAccount.InRange (a : TransactionAccounts) : SerializeAccount → Prop
  | .Account _ b => b.getIndexInTransaction.toNat < a.len
  | .Duplicate _ => True

theorem SerializeAccount.inRange_congr (hlen : a'.len = a.len) : account.InRange a' ↔ account.InRange a := by
  cases account with
  | Duplicate position => exact Iff.rfl
  | Account index b => rw [SerializeAccount.InRange, SerializeAccount.InRange, hlen]

theorem duplicateMetadata_ok (h : (duplicateMetadata metas position).run st = .ok m st') :
    metas[position.toNat]? = some m ∧ st' = st := by
  unfold duplicateMetadata at h
  split at h <;> cases h
  exact ⟨‹_›, rfl⟩

/-- The head of a record of ABIv0, in the order of the writes. -/
theorem Layout.head_v1 (h : l.isLoaderV1 = true) (b) (a) :
    [NON_DUP_MARKER] ++ [boolByte b.isSigner] ++ [boolByte b.isWritable] ++ (b.getKey a).toList ++
      toLe 8 (b.getLamports a).toNat ++ toLe 8 (ofNat (b.getData a).length).toNat = l.head b a := by
  simp [head, h]

/-- The head of a record of ABIv1, in the order of the writes. -/
theorem Layout.head_v2 (h : l.isLoaderV1 = false) (b) (a) :
    [NON_DUP_MARKER] ++ [boolByte b.isSigner] ++ [boolByte b.isWritable] ++ [boolByte (b.isExecutable a)] ++
      [0, 0, 0, 0] ++ (b.getKey a).toList ++ (b.getOwner a).toList ++ toLe 8 (b.getLamports a).toNat ++
      toLe 8 (ofNat (b.getData a).length).toNat = l.head b a := by
  simp [head, h]

/-- One account in the layout of either ABI. -/
def serializeAccountFor (isLoaderV1 : Bool) (ext : Externals) :
    List SerializedAccountMetadata → SerializeAccount → SerializeM SerializedAccountMetadata :=
  if isLoaderV1 then serializeAccountForAbiv0 ext else serializeAccountForAbiv1 ext

theorem serializeAccountFor_ok (hv1 : st.serializer.isLoaderV1 = isLoaderV1)
    (hi : account.InRange st.accounts) (hrun : (serializeAccountFor isLoaderV1 ext metas account).run st = .ok m st') :
    WritesAccount ext st account m st' := by
  have hlayout : st.serializer.layout.isLoaderV1 = isLoaderV1 := hv1
  cases account with
  | Duplicate position =>
    have hduplicate :=
      @Writes.duplicate st.accounts (payloadHosts ext st.accounts) st.serializer position m
    rw [Layout.duplicate, hlayout] at hduplicate
    cases isLoaderV1
    all_goals
      obtain ⟨_, st1, h1, h⟩ := bind_inv hrun
      obtain ⟨-, rfl⟩ := duplicateMetadata_ok h1
      cases h
      exact ⟨.refl _, fun _ _ => rfl, by simpa using hduplicate⟩
  | Account index b =>
    cases isLoaderV1
    all_goals
      simp only [serializeAccountFor, serializeAccountForAbiv0, serializeAccountForAbiv1, if_true, Bool.false_eq_true,
        if_false, run_bind, run_get, run_writeU8, run_writeU64, run_writeAll, Serializing.put_put,
        Serializing.put_serializer, append_append] at hrun
      first
      | rw [Layout.head_v1 hlayout] at hrun
      | rw [Layout.head_v2 hlayout] at hrun
      cases hw : (writeAccount ext b).run
          (st.put (st.serializer.append (st.serializer.layout.head b st.accounts))) with
      | error e st1 => simp [hw] at hrun
      | ok vmDataAddr st1 =>
        obtain ⟨haddr, remap, ⟨hsame, hframe, hregion⟩, hser⟩ := writeAccount_ok (by exact hi) hw
        have hdata : b.getData st1.accounts = b.getData st.accounts := (hsame.view _).data
        have howner : b.getOwner st1.accounts = b.getOwner st.accounts := (hsame.view _).owner
        have hexecutable : b.isExecutable st1.accounts = b.isExecutable st.accounts := (hsame.view _).executable
        rw [hw] at hrun
        simp only [Serializing.put_accounts, hdata, howner, hexecutable, haddr, nextVaddr_append] at hrun
        cases hrun
        refine ⟨hsame, fun i hne => hframe i fun h => hne (congrArg some h), ?_⟩
        convert @Writes.account st.accounts (payloadHosts ext st1.accounts) st.serializer index _ _ _ hregion
          hser using 1
        · rfl
        · simp [hv1, Layout.keyAt, Layout.lamportsAt, Layout.ownerAt, hlayout]
        · simp [Layout.tail, hlayout]

theorem serializeAccountFor_duplicate
    (hrun : (serializeAccountFor isLoaderV1 ext metas (.Duplicate position)).run st = .ok m st') :
    metas[position.toNat]? = some m := by
  cases isLoaderV1
  all_goals
    obtain ⟨_, _, h1, h⟩ := bind_inv hrun
    cases h
    exact (duplicateMetadata_ok h1).1

theorem Layout.head_congr (h : ∀ i, (a.view i).Same (a'.view i)) : l.head b a' = l.head b a := by
  have hview := h b.getIndexInTransaction
  simp [head, getKey, getOwner, getLamports, getData, isExecutable, account, hview.key, hview.owner,
    hview.lamports, hview.data, hview.executable]

theorem Layout.tail_congr (h : ∀ i, (a.view i).Same (a'.view i)) : l.tail b a' = l.tail b a := by
  have hview := h b.getIndexInTransaction
  simp [tail, getOwner, isExecutable, account, hview.owner, hview.executable]

/-- Only the fields of the accounts matter. -/
theorem Serializer.Writes.congr (hsame : ∀ i, (a.view i).Same (a'.view i)) (h : s.Writes a' hosts account m s1) :
    s.Writes a hosts account m s1 := by
  cases h with
  | duplicate => exact .duplicate
  | @account index b s1 remap region data =>
    have hdata : b.getData a' = b.getData a := (hsame _).data
    rw [hdata] at region
    rw [Layout.head_congr hsame, hdata] at data
    have := @account _ _ _ index _ _ _ region data
    rw [← hdata, ← Layout.head_congr hsame, ← Layout.tail_congr hsame] at this
    exact this

/-- Only the payload of the account itself matters. -/
theorem Serializer.Writes.hosts_congr
    (hhosts : ∀ i, account.borrows = some i → hosts' i = hosts i) (h : s.Writes a hosts account m s1) :
    s.Writes a hosts' account m s1 := by
  cases h with
  | duplicate => exact .duplicate
  | account region data => exact .account (hhosts _ rfl ▸ region) data

theorem Serializer.Written.congr
    (hsame : ∀ i, (a.view i).Same (a'.view i)) (h : s.Written a' hosts accounts metas s') :
    s.Written a hosts accounts metas s' := by
  induction h with
  | nil => exact .nil
  | cons head _ ih => exact .cons (head.congr hsame) ih

theorem Serializer.Writes.layout_eq (h : s.Writes a hosts account m s1) : s1.layout = s.layout := by
  cases h with
  | duplicate => rfl
  | account region data => rw [data, layout_append, putData_layout, layout_append]

/-- No account is borrowed twice. -/
def ApartAccounts (accounts : List SerializeAccount) : Prop :=
  accounts.Pairwise fun x y => ∀ i, x.borrows = some i → y.borrows ≠ some i

variable {accounts : List SerializeAccount}

theorem serializeAccounts_ok
    (hrun : (serializeAccounts (serializeAccountFor isLoaderV1 ext) metas accounts).run st = .ok metas' st')
    (hv1 : st.serializer.isLoaderV1 = isLoaderV1) (hsame : SameAccounts a st.accounts)
    (hi : ∀ account ∈ accounts, account.InRange a) (hapart : ApartAccounts accounts) : SameAccounts a st'.accounts ∧
      (∀ i, (∀ account ∈ accounts, account.borrows ≠ some i) → st'.accounts.view i = st.accounts.view i) ∧
      ∃ rest, metas' = metas ++ rest ∧
        st.serializer.Written a (payloadHosts ext st'.accounts) accounts rest st'.serializer := by
  induction accounts generalizing st metas with
  | nil =>
    cases hrun
    exact ⟨hsame, fun _ _ => rfl, [], by simp, .nil⟩
  | cons account accounts ih =>
    obtain ⟨m, st1, h1, h⟩ := bind_inv hrun
    obtain ⟨hsame1, hframe1, hw⟩ :=
      serializeAccountFor_ok hv1 ((SerializeAccount.inRange_congr hsame.len).mpr (hi account mem_cons_self)) h1
    have hv11 : st1.serializer.isLoaderV1 = isLoaderV1 :=
      (congrArg Layout.isLoaderV1 hw.layout_eq).trans hv1
    obtain ⟨hfirst, hapart⟩ := pairwise_cons.mp hapart
    obtain ⟨hsame', hframe, rest, hrest, hwritten⟩ := ih h hv11 (hsame.trans hsame1)
      (fun x hx => hi x (mem_cons_of_mem _ hx)) hapart
    refine ⟨hsame', fun i hothers => ?_, m :: rest, by simp [hrest], .cons ?_ hwritten⟩
    · obtain ⟨hne, hothers⟩ := forall_mem_cons.mp hothers
      rw [hframe i hothers, hframe1 i hne]
    · -- the accounts behind it leave its payload where it is
      refine (hw.congr hsame.view).hosts_congr fun i hborrows => ?_
      rw [payloadHosts, payloadHosts, hframe i fun x hx => hfirst x hx i hborrows]

/-- A duplicate has the metadata of an account before it. -/
theorem serializeAccounts_repeated
    (hrun : (serializeAccounts (serializeAccountFor isLoaderV1 ext) metas accounts).run st = .ok metas' st') :
    (∃ rest, metas' = metas ++ rest) ∧ ∀ k position, accounts[k]? = some (.Duplicate position) →
      position.toNat < metas.length + k ∧ metas'[metas.length + k]? = metas'[position.toNat]? := by
  induction accounts generalizing st metas with
  | nil =>
    cases hrun
    exact ⟨⟨[], (List.append_nil _).symm⟩, fun k position hk => nomatch hk⟩
  | cons account accounts ih =>
    obtain ⟨m, st1, h1, h⟩ := bind_inv hrun
    obtain ⟨⟨rest, hrest⟩, htail⟩ := ih h
    have hmetas : metas' = metas ++ m :: rest := by rw [hrest, append_assoc, singleton_append]
    refine ⟨⟨m :: rest, hmetas⟩, fun k position hk => ?_⟩
    cases k with
    | zero =>
      rw [getElem?_cons_zero, Option.some.injEq] at hk
      subst hk
      have hget := serializeAccountFor_duplicate h1
      have hlt := (getElem?_eq_some_iff.mp hget).1
      rw [hmetas, add_zero, getElem?_append_left hlt, hget, getElem?_append_right le_rfl, Nat.sub_self]
      exact ⟨hlt, rfl⟩
    | succ k =>
      have hstep := htail k position hk
      rw [length_append, length_singleton, add_assoc, add_comm 1] at hstep
      exact hstep

theorem writePointers_ok (hrun : (writePointers metas).run st = .ok () st') :
    st' = st.put (st.serializer.append (metas.flatMap fun m => toLe 8 m.vmDataAddr.toNat)) := by
  induction metas generalizing st with
  | nil =>
    cases hrun
    simp [Serializing.put]
  | cons m metas ih =>
    simp only [writePointers, run_bind, run_writeU64] at hrun
    rw [ih hrun]
    simp

/-- The array of pointers with the padding in front of it. -/
def pointersBytes (offset : Option Nat) (metas : List SerializedAccountMetadata) : List UInt8 :=
  match offset with
  | none => []
  | some n => zeros n ++ metas.flatMap fun m => toLe 8 m.vmDataAddr.toNat

/-- The instruction data behind its length, and the program id. -/
def instructionBytes (instructionData : List UInt8) (programId : Pubkey) : List UInt8 :=
  toLe 8 (ofNat instructionData.length).toNat ++ instructionData ++ programId.toList

theorem writePointerArray_ok (hrun : (writePointerArray offset metas).run st = .ok () st') :
    st' = st.put (st.serializer.append (pointersBytes offset metas)) := by
  cases offset with
  | none =>
    cases hrun
    simp [Serializing.put, pointersBytes]
  | some n =>
    obtain ⟨_, st1, h1, h⟩ := bind_inv hrun
    obtain rfl := fillWrite_ok h1
    rw [writePointers_ok h]
    simp only [Serializing.put_serializer, append_append]
    rfl

theorem run_writeInstruction (st) (instructionData) (programId) :
    (writeInstruction instructionData programId).run st =
      .ok (st.serializer.vaddrAt 8) (st.put (st.serializer.append (instructionBytes instructionData programId))) := by
  simp only [writeInstruction, run_bind, run_writeU64, run_writeAll, Serializing.put_serializer, append_append,
    nextVaddr_append]
  rfl

theorem finish_ok (hrun : (finish metas addr).run st = .ok p st') :
    p.mem = st.serializer.buffer ∧ p.regions = st.serializer.closeRegion.regions ∧ p.accountsMetadata = metas ∧
      p.instructionDataOffset = addr.toNat ∧ st' = st.put st.serializer.closeRegion := by
  obtain ⟨_, st1, h1, h⟩ := bind_inv hrun
  obtain rfl := pushRegion_ok h1
  cases h
  exact ⟨rfl, rfl, rfl, rfl, rfl⟩

/-- What a layout returns: the accounts have been written behind their number, and the
instruction and the pointers behind them. -/
structure Serialized (a : TransactionAccounts) (hosts : UInt16 → UInt64) (s : Serializer)
    (accounts : List SerializeAccount) (instructionData : List UInt8) (programId : Pubkey) (offset : Option Nat)
    (p : SerializedParameters) : Prop where
  written : ∃ s1 bytes, (s.append (toLe 8 (ofNat accounts.length).toNat)).Written a hosts accounts
      p.accountsMetadata s1 ∧
    bytes = instructionBytes instructionData programId ++ pointersBytes offset p.accountsMetadata ∧
    p.instructionDataOffset = (s1.vaddrAt 8).toNat ∧
    p.mem = s1.buffer ++ bytes ∧ p.regions = (s1.append bytes).closeRegion.regions
  repeated : ∀ (k : Nat) (position : UInt16), accounts[k]? = some (.Duplicate position) →
    position.toNat < k ∧ p.accountsMetadata[k]? = p.accountsMetadata[position.toNat]?

/-- The parameters in the layout of either ABI. -/
def serializeParametersFor (isLoaderV1 : Bool) (ext : Externals) (accounts : List SerializeAccount)
    (instructionData : List UInt8) (programId : Pubkey) (offset : Option Nat) : SerializeM SerializedParameters := do
  let _ ← writeU64 (.ofNat accounts.length)
  let accountsMetadata ← serializeAccounts (serializeAccountFor isLoaderV1 ext) [] accounts
  let instructionDataOffset ← writeInstruction instructionData programId
  writePointerArray offset accountsMetadata
  finish accountsMetadata instructionDataOffset

theorem serializeParametersFor_ok {instructionData : List UInt8} (hv1 : st.serializer.isLoaderV1 = isLoaderV1)
    (hi : ∀ account ∈ accounts, account.InRange st.accounts) (hapart : ApartAccounts accounts)
    (hrun : (serializeParametersFor isLoaderV1 ext accounts instructionData programId offset).run st = .ok p st') :
    SameAccounts st.accounts st'.accounts ∧ st'.serializer.buffer = p.mem ∧
      Serialized st.accounts (payloadHosts ext st'.accounts) st.serializer accounts instructionData programId offset
        p := by
  obtain ⟨_, _, h1, h⟩ := bind_inv hrun
  cases h1
  obtain ⟨metas, st2, h2, h⟩ := bind_inv h
  obtain ⟨hsame, -, rest, hrest, hwritten⟩ := serializeAccounts_ok h2 hv1 (.refl _) hi hapart
  obtain ⟨addr, st3, h3, h⟩ := bind_inv h
  rw [run_writeInstruction] at h3
  cases h3
  obtain ⟨_, st4, h4, h⟩ := bind_inv h
  obtain rfl := writePointerArray_ok h4
  obtain ⟨hmem, hregions, hmetas, haddr, rfl⟩ := finish_ok h
  refine ⟨hsame, hmem.symm, ⟨st2.serializer, _, ?_, rfl, haddr, ?_, ?_⟩, ?_⟩
  · rw [hmetas, hrest]
    exact hwritten
  · simpa [hmetas] using hmem
  · simpa [hmetas] using hregions
  · have hrepeated := (serializeAccounts_repeated h2).2
    simp only [length_nil, zero_add] at hrepeated
    rw [hmetas]
    exact hrepeated

end Accounts

/-! ## Borrowing the accounts and giving them back -/

section Collect

variable {ic : InstructionContext} {rent : Rent} {a a' : TransactionAccounts} {i : UInt16}

/-- What is made of an index of the instruction: a duplicate, or the borrow of an
account that is in range and free. -/
inductive Collects (ic : InstructionContext) (rent : Rent) (a : TransactionAccounts) (index : UInt16) :
    SerializeAccount → Prop
  | duplicate {position : UInt16} (h : ic.isInstructionAccountDuplicate index = .ok (some position)) :
      Collects ic rent a index (.Duplicate position)
  | account {ia : InstructionAccount} (h : ic.isInstructionAccountDuplicate index = .ok none)
      (instructionAccount : ic.instructionAccounts[index.toNat]? = some ia)
      (inRange : ia.indexInTransaction.toNat < a.len) (free : (a.slot ia.indexInTransaction).borrowCounter = 0) :
      Collects ic rent a index (.Account index (ic.borrowed rent ia))

/-- What is free while an account is borrowed was free before. -/
theorem TransactionAccounts.free_of_takeBorrow (hi : i.toNat < a.len)
    (h : ((a.takeBorrow i).slot j).borrowCounter = 0) : (a.slot j).borrowCounter = 0 := by
  by_cases hij : i = j
  · subst hij
    rw [takeBorrow, slot_modifySlot_self a hi] at h
    cases h
  · rwa [takeBorrow, slot_modifySlot_ne a hij] at h

theorem Collects.of_takeBorrow (hi : i.toNat < a.len)
    (h : Collects ic rent (a.takeBorrow i) index account) : Collects ic rent a index account := by
  cases h with
  | duplicate h => exact .duplicate h
  | account h hia hrange hfree =>
    rw [len_takeBorrow] at hrange
    exact .account h hia hrange (free_of_takeBorrow hi hfree)

/-- An account that is borrowed is not collected. -/
theorem Collects.borrows_ne (hi : i.toNat < a.len)
    (h : Collects ic rent (a.takeBorrow i) index account) : account.borrows ≠ some i := by
  cases h with
  | duplicate h => exact nofun
  | account h hia hrange hfree =>
    intro heq
    obtain rfl : _ = i := Option.some.inj heq
    rw [borrowed, getIndexInTransaction] at hi hfree
    rw [takeBorrow, slot_modifySlot_self a hi] at hfree
    cases hfree

theorem releaseBorrowMut_comm (i j) :
    (a.releaseBorrowMut i).releaseBorrowMut j = (a.releaseBorrowMut j).releaseBorrowMut i := by
  by_cases hij : i = j
  · rw [hij]
  · simp only [releaseBorrowMut, modifySlot, TransactionAccounts.mk.injEq, and_true]
    refine ext_getElem? fun k => ?_
    simp only [getElem?_modify]
    split_ifs <;> cases a.slots[k]? <;> rfl

theorem dropAccounts_releaseBorrowMut (accounts) (i) :
    dropAccounts (a.releaseBorrowMut i) accounts = (dropAccounts a accounts).releaseBorrowMut i := by
  induction accounts generalizing a with
  | nil => rfl
  | cons account accounts ih =>
    cases account with
    | Duplicate position => exact ih
    | Account index b =>
      simp only [dropAccounts]
      rw [releaseBorrowMut_comm, ih]

theorem exists_collects (h : List.Forall₂ (Collects ic rent a) indices accounts) (hmem : account ∈ accounts) :
    ∃ index, Collects ic rent a index account := by
  obtain ⟨k, hk, rfl⟩ := getElem_of_mem hmem
  exact ⟨_, h.get (h.length_eq ▸ hk) hk⟩

theorem payload_releaseBorrowMut (i j) :
    ((a.releaseBorrowMut i).view j).privateFields.payload = (a.view j).privateFields.payload := by
  obtain ⟨n, hn⟩ := a.view_releaseBorrowMut i j
  rw [hn]
  rfl

theorem payloadHosts_dropAccounts (ext) (a) (accounts) :
    payloadHosts ext (dropAccounts a accounts) = payloadHosts ext a := by
  induction accounts generalizing a with
  | nil => rfl
  | cons account accounts ih =>
    cases account with
    | Duplicate position => exact ih a
    | Account index b =>
      rw [dropAccounts, ih]
      funext i
      rw [payloadHosts, payloadHosts, payload_releaseBorrowMut]

/-- What collecting the accounts of some indices leaves. -/
structure Collected (ic : InstructionContext) (rent : Rent) (a : TransactionAccounts) (indices : List UInt16)
    (accounts : List SerializeAccount) (a' : TransactionAccounts) : Prop where
  collects : List.Forall₂ (Collects ic rent a) indices accounts
  apart : ApartAccounts accounts
  view : ∀ i, a'.view i = a.view i
  len : a'.len = a.len
  /-- Dropping the accounts undoes the borrows. -/
  dropped : ∀ a2, SameAccounts a' a2 → SameAccounts a (dropAccounts a2 accounts)

theorem collectAccounts_ok (hrun : (collectAccounts ic rent indices).run a = .ok accounts a') :
    Collected ic rent a indices accounts a' := by
  induction indices generalizing a accounts with
  | nil =>
    cases hrun
    exact ⟨.nil, .nil, fun _ => rfl, rfl, fun _ h => h⟩
  | cons index indices ih =>
    obtain ⟨account, a₁, h1, h⟩ := bind_inv hrun
    obtain ⟨accounts, a2, h2, h⟩ := bind_inv h
    cases h
    have hrest := ih h2
    simp only [collectAccount] at h1
    split at h1
    · cases h1
    · cases h1
      rename_i hdup
      exact ⟨.cons (.duplicate hdup) hrest.collects, .cons (fun _ _ _ => nofun) hrest.apart, hrest.view, hrest.len,
        hrest.dropped⟩
    · rename_i hdup
      obtain ⟨b, _, h3, h⟩ := bind_inv h1
      cases h
      obtain ⟨ia, hia, rfl, hi, hfree, rfl⟩ := tryBorrowInstructionAccount_ok (run_mapError_ok.mp h3)
      refine ⟨.cons (.account hdup hia hi hfree) ?_, .cons (fun account hmem i hborrows => ?_) hrest.apart,
        fun i => ?_, ?_, fun a2 hsame => ?_⟩
      · exact hrest.collects.imp fun _ _ => .of_takeBorrow hi
      · obtain rfl : _ = i := Option.some.inj hborrows
        obtain ⟨index', hc⟩ := exists_collects hrest.collects hmem
        exact hc.borrows_ne hi
      · rw [hrest.view, view_takeBorrow]
      · rw [hrest.len, len_takeBorrow]
      · have hdrop := (hrest.dropped _ hsame).releaseBorrowMut hi hfree
        rwa [← dropAccounts_releaseBorrowMut] at hdrop

end Collect

/-! ## Records in the buffer -/

section Records

variable {l : Layout} {buffer after : List UInt8}

theorem readU64_append (before) (hbuffer : buffer = before ++ (toLe 8 x.toNat ++ after))
    (hstart : start = before.length) (hsmall : before.length + 8 < 2 ^ 64) : readU64 buffer start = .ok x := by
  subst hstart
  have hslice : slice buffer before.length (satAdd 64 before.length 8) = some (toLe 8 x.toNat) := by
    rw [hbuffer, satAdd_eq hsmall]
    exact slice_append rfl (by rw [length_toLe])
  simp [readU64, hslice, ofLe_toLe_uint64]

theorem readPubkey_append (before) (hbuffer : buffer = before ++ (key.toList ++ after))
    (hstart : start = before.length) : readPubkey buffer start = .ok key := by
  subst hstart
  have hslice : slice buffer before.length (before.length + 32) = some key.toList := by
    rw [hbuffer]
    exact slice_append rfl (by simp)
  obtain ⟨bytes, hsize⟩ := key
  simp [readPubkey, hslice, hsize]

theorem readData_append (before) (hbuffer : buffer = before ++ (data ++ after))
    (hstart : start = before.length) : readData buffer start data.length = .ok data := by
  subst hstart
  rw [readData, hbuffer, slice_append rfl rfl]

/-- The data is at the start of its area. -/
theorem Layout.area_eq (data) (h : l.dataOutside = false) :
    ∃ padding, l.area data = data ++ padding := by
  unfold area
  by_cases hv1 : l.isLoaderV1
  · exact ⟨[], by simp [h, hv1]⟩
  · exact ⟨zeros (MAX_PERMITTED_DATA_INCREASE + alignOffset data.length), by simp [h, hv1]⟩

/-- A record as it is written holds the account. -/
theorem Layout.holds_record
    (hbuffer : buffer = before ++ (l.head b a ++ (l.area (b.getData a) ++ (l.tail b a ++ after))))
    (hsmall : before.length + l.dataAt + l.areaLen (b.getData a).length < 2 ^ 64) :
    l.Holds buffer before.length (b.getData a).length (b.account a) := by
  have hdata : l.dataOutside = false →
      readData buffer (before.length + l.dataAt) (b.getData a).length = .ok (b.getData a) := by
    intro hout
    obtain ⟨padding, hpadding⟩ := l.area_eq (b.getData a) hout
    refine readData_append (before ++ l.head b a)
      (by rw [hbuffer, hpadding]; simp only [append_assoc]; rfl) ?_
    rw [length_append, length_head]
  have hfits : (b.account a).data.length ≤ (b.getData a).length + l.growth := Nat.le_add_right ..
  by_cases hv1 : l.isLoaderV1 = true
  · have hhead : l.head b a = [NON_DUP_MARKER, boolByte b.isSigner, boolByte b.isWritable] ++
        ((b.getKey a).toList ++ (toLe 8 (b.getLamports a).toNat ++
          toLe 8 (ofNat (b.getData a).length).toNat)) := by simp [head, hv1]
    have htail : l.tail b a = (b.getOwner a).toList ++ ([boolByte (b.isExecutable a)] ++ toLe 8 U64.max.toNat) := by
      simp [tail, hv1]
    simp only [dataAt, lenAt, lamportsAt, keyAt, hv1, if_true] at hsmall
    refine ⟨?_, ?_, ?_, hdata, hfits⟩
    · refine readU64_append (before ++ ([NON_DUP_MARKER, boolByte b.isSigner, boolByte b.isWritable] ++
        (b.getKey a).toList)) (by rw [hbuffer, hhead]; simp only [append_assoc]; rfl) ?_ ?_
      · simp [lamportsAt, keyAt, hv1]
      · simp; omega
    · refine readPubkey_append (before ++ (l.head b a ++ l.area (b.getData a)))
        (by rw [hbuffer, htail]; simp only [append_assoc]; rfl) ?_
      simp [ownerAt, hv1, length_head, length_area]
    · refine readU64_append (before ++ ([NON_DUP_MARKER, boolByte b.isSigner, boolByte b.isWritable] ++
        ((b.getKey a).toList ++ toLe 8 (b.getLamports a).toNat)))
        (by rw [hbuffer, hhead]; simp only [append_assoc]; rfl) ?_ ?_
      · simp [lenAt, lamportsAt, keyAt, hv1]
      · simp; omega
  · have hhead : l.head b a = [NON_DUP_MARKER, boolByte b.isSigner, boolByte b.isWritable,
        boolByte (b.isExecutable a), 0, 0, 0, 0] ++ ((b.getKey a).toList ++ ((b.getOwner a).toList ++
          (toLe 8 (b.getLamports a).toNat ++ toLe 8 (ofNat (b.getData a).length).toNat))) := by
      simp [head, hv1]
    simp only [dataAt, lenAt, lamportsAt, keyAt, hv1, Bool.false_eq_true, if_false] at hsmall
    refine ⟨?_, ?_, ?_, hdata, hfits⟩
    · refine readU64_append (before ++ ([NON_DUP_MARKER, boolByte b.isSigner, boolByte b.isWritable,
        boolByte (b.isExecutable a), 0, 0, 0, 0] ++ ((b.getKey a).toList ++ (b.getOwner a).toList)))
        (by rw [hbuffer, hhead]; simp only [append_assoc]; rfl) ?_ ?_
      · simp [lamportsAt, keyAt, hv1]
      · simp; omega
    · refine readPubkey_append (before ++ ([NON_DUP_MARKER, boolByte b.isSigner, boolByte b.isWritable,
        boolByte (b.isExecutable a), 0, 0, 0, 0] ++ (b.getKey a).toList))
        (by rw [hbuffer, hhead]; simp only [append_assoc]; rfl) ?_
      simp [ownerAt, keyAt, hv1]
    · refine readU64_append (before ++ ([NON_DUP_MARKER, boolByte b.isSigner, boolByte b.isWritable,
        boolByte (b.isExecutable a), 0, 0, 0, 0] ++ ((b.getKey a).toList ++ ((b.getOwner a).toList ++
          toLe 8 (b.getLamports a).toNat)))) (by rw [hbuffer, hhead]; simp only [append_assoc]; rfl) ?_ ?_
      · simp [lenAt, lamportsAt, keyAt, hv1]
      · simp; omega

/-- The entry of an account in the layout. -/
def SerializeAccount.entry (a : TransactionAccounts) : SerializeAccount → Option Nat
  | .Account _ b => some (b.getData a).length
  | .Duplicate _ => none

theorem Serializer.Writes.buffer_eq {s : Serializer} (h : s.Writes a hosts account m s1) :
    ∃ bytes, s1.buffer = s.buffer ++ bytes ∧ bytes.length = s.layout.recordLen (account.entry a) := by
  cases h with
  | duplicate => exact ⟨_, rfl, s.layout.length_duplicate _⟩
  | @account index b s2 remap region data =>
    refine ⟨s.layout.head b a ++ (s.layout.area (b.getData a) ++ s.layout.tail b a), ?_, ?_⟩
    · rw [data, buffer_append, putData_buffer]
      simp
    · simp only [length_append, Layout.length_head, Layout.length_area, Layout.length_tail,
        SerializeAccount.entry, Layout.recordLen]
      omega

/-- Where the records of the accounts lie: behind those of the accounts before. -/
theorem Serializer.Written.records {s : Serializer} (h : s.Written a hosts accounts metas s') :
    metas.length = accounts.length ∧ (∃ bytes, s'.buffer = s.buffer ++ bytes) ∧
    ∀ k index b, accounts[k]? = some (.Account index b) →
      (∃ m, metas[k]? = some m ∧ m.originalDataLen = (b.getData a).length) ∧
      ∃ before after, s'.buffer = before ++ (s.layout.head b a ++
          (s.layout.area (b.getData a) ++ (s.layout.tail b a ++ after))) ∧ before.length = s.buffer.length +
          ((accounts.take k).map fun x => s.layout.recordLen (x.entry a)).sum := by
  induction h with
  | nil => exact ⟨rfl, ⟨[], by simp⟩, fun k index b hk => by simp at hk⟩
  | @cons s s1 s2 account accounts m rest hhead htail ih =>
    obtain ⟨hlen, ⟨more, hmore⟩, hrecords⟩ := ih
    obtain ⟨bytes, hbytes, hbytesLen⟩ := hhead.buffer_eq
    refine ⟨by simp [hlen], ⟨bytes ++ more, by rw [hmore, hbytes, append_assoc]⟩, fun k index b hk => ?_⟩
    cases k with
    | zero =>
      obtain rfl : account = .Account index b := by simpa using hk
      cases hhead with
      | account region data =>
        refine ⟨⟨_, rfl, rfl⟩, s.buffer, more, ?_, by simp⟩
        rw [hmore, data, buffer_append, putData_buffer]
        simp
    | succ k =>
      obtain ⟨hm, before, after, hbuffer, hbefore⟩ := hrecords k index b (by simpa using hk)
      rw [hhead.layout_eq] at hbuffer hbefore
      refine ⟨by simpa using hm, before, after, hbuffer, ?_⟩
      rw [hbefore, hbytes, length_append, hbytesLen]
      simp [add_assoc]

end Records

/-! ## The round trip -/

section RoundTrip

variable {ext : SerializeExternals} {ic : InstructionContext} {rent : Rent} {features : InputFeatures}
  {a a₁ : TransactionAccounts} {p : SerializedParameters} {a' : TransactionAccounts}

/-- Serialization of borrowed accounts is the second pass, and then they are dropped. -/
theorem serializeBorrowed_run (ext) (features) (isLoaderDeprecated : Bool)
    (bufferAddr) (accounts) (instructionData) (programId)
    (a) :
    (serializeBorrowed ext features isLoaderDeprecated bufferAddr accounts instructionData programId).run a =
      match writeLayout ext features isLoaderDeprecated bufferAddr accounts instructionData programId a with
      | .ok p st => .ok p (dropAccounts st.accounts accounts)
      | .error fault st => .error fault (dropAccounts st.accounts accounts) := by
  cases isLoaderDeprecated with
  | true => rfl
  | false =>
    simp only [serializeBorrowed, writeLayout, run, allocatedSize, pointersOffset]
    cases features.directAccountPointersInProgramInput <;> rfl

theorem writeLayout_run (ext) (features) (isLoaderV1 : Bool) (bufferAddr)
    (accounts) (instructionData) (programId) (a) :
    writeLayout ext features isLoaderV1 bufferAddr accounts instructionData programId a =
      (serializeParametersFor isLoaderV1 ext accounts instructionData programId
        (pointersOffset features isLoaderV1 a accounts instructionData)).run
      ⟨a, .new (allocatedSize features isLoaderV1 a accounts instructionData) bufferAddr MM_INPUT_START isLoaderV1
        features⟩ := by
  cases isLoaderV1 <;> rfl

theorem writeLayout_ok {bufferAddr : UInt64} {instructionData : List UInt8} {ext : Externals}
    (hi : ∀ account ∈ accounts, account.InRange a) (hapart : ApartAccounts accounts)
    (hrun : writeLayout ext features isLoaderDeprecated bufferAddr accounts instructionData programId a = .ok p st) :
    SameAccounts a st.accounts ∧ st.serializer.buffer = p.mem ∧ Serialized a (payloadHosts ext st.accounts)
        (.new (allocatedSize features isLoaderDeprecated a accounts instructionData) bufferAddr MM_INPUT_START
          isLoaderDeprecated features) accounts instructionData programId
        (pointersOffset features isLoaderDeprecated a accounts instructionData) p := by
  rw [writeLayout_run] at hrun
  have hv1 : (Serializer.new (allocatedSize features isLoaderDeprecated a accounts instructionData) bufferAddr
      MM_INPUT_START isLoaderDeprecated features).isLoaderV1 = isLoaderDeprecated := rfl
  exact serializeParametersFor_ok hv1 (by exact hi) hapart hrun

/-- What a successful serialization has done. -/
structure Serializes (ext : Externals) (ic : InstructionContext) (rent : Rent) (features : InputFeatures)
    (isLoaderDeprecated : Bool) (bufferAddr : UInt64) (a : TransactionAccounts) (p : SerializedParameters)
    (accounts : List SerializeAccount) (a' : TransactionAccounts) : Prop where
  same : SameAccounts a a'
  few : ic.indices.length ≤ MAX_ACCOUNTS_PER_INSTRUCTION
  collects : List.Forall₂ (Collects ic rent a) ic.indices accounts
  serialized : ∃ programId, ic.getProgramKey a = .ok programId ∧
    Serialized a (payloadHosts ext a') (.new (allocatedSize features isLoaderDeprecated a accounts ic.instructionData)
      bufferAddr MM_INPUT_START isLoaderDeprecated features) accounts ic.instructionData programId
      (pointersOffset features isLoaderDeprecated a accounts ic.instructionData) p

theorem serializedSize_congr (hsame : ∀ i, (a.view i).Same (a'.view i)) (isLoaderV1 dataOutside : Bool)
    (accounts) (instructionData) :
    serializedSize isLoaderV1 dataOutside a' accounts instructionData =
      serializedSize isLoaderV1 dataOutside a accounts instructionData := by
  have hsize (account : SerializeAccount) :
      account.size isLoaderV1 dataOutside a' = account.size isLoaderV1 dataOutside a := by
    cases account with
    | Duplicate position => rfl
    | Account index b =>
      have hdata : b.getData a' = b.getData a := (hsame _).data
      simp [SerializeAccount.size, hdata]
  rw [serializedSize, serializedSize, map_congr_left fun account _ => hsize account]

theorem Collects.congr (hsame : SameAccounts a a')
    (h : Collects ic rent a' index account) : Collects ic rent a index account := by
  cases h with
  | duplicate h => exact .duplicate h
  | account h hia hrange hfree => exact .account h hia (hsame.len ▸ hrange) (hsame.borrowCounter _ ▸ hfree)

theorem inRange_of_collects
    (h : List.Forall₂ (Collects ic rent a) indices accounts) : ∀ account ∈ accounts, account.InRange a := by
  induction h with
  | nil => simp
  | cons hc _ ih =>
    refine forall_mem_cons.mpr ⟨?_, ih⟩
    cases hc with
    | duplicate h => trivial
    | account h hia hrange hfree => exact hrange

theorem serializeParameters_ok {bufferAddr : UInt64}
    (hrun : (serializeParameters ext ic rent features bufferAddr).run a = .ok p a₁) :
    ∃ owner accounts, ProgramReadable ic a owner ∧
      Serializes ext.toExternals ic rent features (owner = ext.bpfLoaderDeprecatedId) bufferAddr a p accounts a₁ := by
  simp only [serializeParameters] at hrun
  split at hrun
  · cases hrun
  · rename_i hfew
    obtain ⟨programId, _, h1, h⟩ := bind_inv hrun
    obtain ⟨_, _, hget, hkey⟩ := bind_inv (run_mapError_ok.mp h1)
    cases hget
    rw [(run_ofExcept_eq_ok.mp hkey).2] at h
    obtain ⟨owner, a', h2, h⟩ := bind_inv h
    obtain ⟨hreadable, hsame1⟩ := getProgramOwner_ok (run_mapError_ok.mp h2)
    obtain ⟨accounts, a'', h3, h⟩ := bind_inv h
    have hcollected := collectAccounts_ok h3
    have hview (i : UInt16) : (a.view i).Same (a''.view i) := by
      rw [hcollected.view]
      exact hsame1.view i
    have hi : ∀ account ∈ accounts, account.InRange a'' := by
      simp only [SerializeAccount.inRange_congr hcollected.len]
      exact inRange_of_collects hcollected.collects
    rw [serializeBorrowed_run] at h
    split at h
    · rename_i st hlayout
      cases h
      obtain ⟨hsame2, -, hser⟩ := writeLayout_ok hi hcollected.apart hlayout
      refine ⟨owner, accounts, hreadable, hsame1.trans (hcollected.dropped _ hsame2), ?_, ?_, ?_⟩
      · rw [length_indices]
        exact UInt16.le_iff_toNat_le.mp (UInt16.not_lt.mp hfew)
      · exact hcollected.collects.imp fun _ _ => .congr hsame1
      · obtain ⟨⟨s1, bytes, hwritten, hrest⟩, hrepeated⟩ := hser
        simp only [allocatedSize, pointersOffset, serializedSize_congr hview] at hwritten hrest
        rw [payloadHosts_dropAccounts]
        exact ⟨programId, (run_ofExcept_eq_ok.mp hkey).1, ⟨s1, bytes, hwritten.congr hview, hrest⟩, hrepeated⟩
    · cases h

/-- The accounts of an instruction are no longer than an account may be. -/
def InstructionContext.Short (ic : InstructionContext) (a : TransactionAccounts) : Prop :=
  ∀ ia ∈ ic.instructionAccounts, (a.view ia.indexInTransaction).data.length ≤ MAX_ACCOUNT_DATA_LEN

instance (ic : InstructionContext) (a : TransactionAccounts) : Decidable (ic.Short a) :=
  inferInstanceAs (Decidable (∀ ia ∈ ic.instructionAccounts, _ ≤ _))

/-- A bound of the length of a record. -/
def MAX_RECORD_LEN : Nat := MAX_ACCOUNT_DATA_LEN + MAX_PERMITTED_DATA_INCREASE + 256

theorem Layout.recordLen_le (l : Layout) {entry : Option Nat} (h : ∀ n, entry = some n → n ≤ MAX_ACCOUNT_DATA_LEN) :
    l.recordLen entry ≤ MAX_RECORD_LEN := by
  unfold MAX_RECORD_LEN
  cases entry with
  | none =>
    simp only [recordLen]
    split <;> omega
  | some n =>
    have hn := h n rfl
    have halign : alignOffset n < 8 := Nat.mod_lt _ (by decide)
    simp only [recordLen, dataAt, lenAt, lamportsAt, keyAt, areaLen, BPF_ALIGN_OF_U128]
    cases l.isLoaderV1 <;> cases l.dataOutside <;>
      simp only [Bool.false_eq_true, if_false, if_true] <;> omega

section Serializes

variable {isLoaderDeprecated : Bool} {bufferAddr : UInt64} {accounts : List SerializeAccount}

namespace Serializes

variable {k : Nat}

variable (h : Serializes ext.toExternals ic rent features isLoaderDeprecated bufferAddr a p accounts a₁)

include h

theorem length_eq : p.accountsMetadata.length = ic.indices.length := by
  obtain ⟨programId, -, ⟨s1, bytes, hwritten, -⟩, -⟩ := h.serialized
  rw [hwritten.records.1, h.collects.length_eq]

/-- The account collected at an index. -/
theorem collected_at (hindex : ic.indices[k]? = some index) :
    ∃ account, accounts[k]? = some account ∧ Collects ic rent a index account := by
  obtain ⟨hk, rfl⟩ := getElem?_eq_some_iff.mp hindex
  have hk' : k < accounts.length := h.collects.length_eq ▸ hk
  exact ⟨accounts[k], getElem?_eq_getElem hk', h.collects.get hk hk'⟩

/-- The record of an account, where the layout has it. -/
theorem record_at (hk : accounts[k]? = some (.Account index b)) :
    (∃ m, p.accountsMetadata[k]? = some m ∧ m.originalDataLen = (b.getData a).length) ∧
    ∃ before after, p.mem = before ++ ((features.layout isLoaderDeprecated).head b a ++
        ((features.layout isLoaderDeprecated).area (b.getData a) ++
          ((features.layout isLoaderDeprecated).tail b a ++ after))) ∧
      before.length = (features.layout isLoaderDeprecated).recordStart ((accounts.take k).map (·.entry a)) := by
  obtain ⟨programId, -, ⟨s1, bytes, hwritten, -, -, hmem, -⟩, -⟩ := h.serialized
  obtain ⟨hm, before, after, hbuffer, hbefore⟩ := hwritten.records.2.2 k index b hk
  refine ⟨hm, before, after ++ bytes, ?_, ?_⟩
  · rw [hmem, hbuffer]
    simp only [append_assoc]
    rfl
  · rw [hbefore, Layout.recordStart, map_map]
    rfl

/-- The entries of the layout are those of the instruction. -/
theorem entries_eq : accounts.map (·.entry a) = ic.indices.map (ic.entry p.accountsMetadata) := by
  refine ext_getElem? fun k => ?_
  rw [getElem?_map, getElem?_map]
  cases hindex : ic.indices[k]? with
  | none =>
    have hlen : accounts.length ≤ k := h.collects.length_eq ▸ getElem?_eq_none_iff.mp hindex
    simp [getElem?_eq_none hlen]
  | some index =>
    obtain ⟨account, haccount, hc⟩ := h.collected_at hindex
    rw [haccount]
    cases hc with
    | duplicate hdup => simp [SerializeAccount.entry, entry, hdup]
    | @account ia hdup hia hrange hfree =>
      obtain ⟨⟨m, hm, hlen⟩, -⟩ := h.record_at haccount
      rw [← getElem?_indices hindex] at hm
      simp [SerializeAccount.entry, entry, hdup, hm, hlen]

theorem recordStart_eq (l) (hindex : ic.indices[k]? = some index) :
    l.recordStart ((accounts.take k).map (·.entry a)) = ic.recordStart l p.accountsMetadata index := by
  rw [recordStart, getElem?_indices hindex, map_take, h.entries_eq, ← map_take]

theorem entry_le (hshort : ic.Short a) (hmem : account ∈ accounts) :
    ∀ n, account.entry a = some n → n ≤ MAX_ACCOUNT_DATA_LEN := by
  intro n hn
  obtain ⟨k, hk⟩ := mem_iff_getElem?.mp hmem
  have hlt : k < ic.indices.length := h.collects.length_eq ▸ (getElem?_eq_some_iff.mp hk).1
  obtain ⟨account', haccount, hc⟩ := h.collected_at (getElem?_eq_getElem hlt)
  obtain rfl : account = account' := by
    rw [hk] at haccount
    exact Option.some.inj haccount
  cases hc with
  | duplicate hdup => cases hn
  | @account ia hdup hia hrange hfree =>
    cases hn
    exact hshort ia (mem_of_getElem? hia)

/-- The buffer is far from as long as a word can count. -/
theorem recordStart_small (hshort : ic.Short a) (l : Layout) (k : Nat) :
    l.recordStart ((accounts.take k).map (·.entry a)) + MAX_RECORD_LEN < 2 ^ 64 := by
  have hfew : accounts.length ≤ MAX_ACCOUNTS_PER_INSTRUCTION := h.collects.length_eq ▸ h.few
  have hsum : (((accounts.take k).map (·.entry a)).map l.recordLen).sum ≤
      MAX_ACCOUNTS_PER_INSTRUCTION * MAX_RECORD_LEN := by
    calc (((accounts.take k).map (·.entry a)).map l.recordLen).sum
      _ ≤ (((accounts.take k).map (·.entry a)).map l.recordLen).length • MAX_RECORD_LEN := by
          refine sum_le_card_nsmul _ _ fun n hn => ?_
          simp only [map_map, mem_map] at hn
          obtain ⟨account, hmem, rfl⟩ := hn
          exact l.recordLen_le (h.entry_le hshort (mem_of_mem_take hmem))
      _ ≤ MAX_ACCOUNTS_PER_INSTRUCTION * MAX_RECORD_LEN := by
          refine Nat.mul_le_mul_right _ ?_
          simp only [length_map, length_take]
          omega
  have hconst : 8 + MAX_ACCOUNTS_PER_INSTRUCTION * MAX_RECORD_LEN + MAX_RECORD_LEN < 2 ^ 64 := by decide
  rw [Layout.recordStart]
  omega

/-- The account at an index that is not a duplicate. -/
theorem account_at (hmem : index ∈ ic.indices) (hdup : ic.isInstructionAccountDuplicate index = .ok none)
    (hia : ic.instructionAccounts[index.toNat]? = some ia) : ic.indices[index.toNat]? = some index ∧
      accounts[index.toNat]? = some (.Account index (ic.borrowed rent ia)) ∧
      ia.indexInTransaction.toNat < a.len ∧ (a.slot ia.indexInTransaction).borrowCounter = 0 := by
  obtain ⟨k, hk⟩ := mem_iff_getElem?.mp hmem
  obtain rfl := getElem?_indices hk
  obtain ⟨account, haccount, hc⟩ := h.collected_at hk
  cases hc with
  | duplicate h' => rw [hdup] at h'; cases h'
  | @account ia' _ hia' hrange hfree =>
    obtain rfl : ia = ia' := by
      rw [hia] at hia'
      exact Option.some.inj hia'
    exact ⟨hk, haccount, hrange, hfree⟩

theorem metadata_at (hk : accounts[k]? = some (.Account index b)) (hm : p.accountsMetadata[k]? = some m) :
    m.originalDataLen = (b.getData a).length := by
  obtain ⟨⟨m', hm', hlen⟩, -⟩ := h.record_at hk
  rw [hm] at hm'
  cases hm'
  exact hlen

/-- The record that a later one repeats has the length of an account too. -/
theorem originalDataLen_le (hshort : ic.Short a) (hmem : index ∈ ic.indices)
    (hdup : ic.isInstructionAccountDuplicate index = .ok none) (hm : p.accountsMetadata[index.toNat]? = some m) :
    m.originalDataLen ≤ MAX_ACCOUNT_DATA_LEN := by
  obtain ⟨ia, hia⟩ := exists_instructionAccount hdup
  obtain ⟨-, haccount, -, -⟩ := h.account_at hmem hdup hia
  rw [h.metadata_at haccount hm]
  exact hshort ia (mem_of_getElem? hia)

/-- The buffer that was written can be read back. -/
theorem readable (hshort : ic.Short a) (hbounded : BorrowedInstructionAccount.ResizeBounded a) :
    ic.Readable (features.layout isLoaderDeprecated) p.mem p.accountsMetadata a₁ where
  length := h.length_eq
  account index hmem hdup ia hia m hm := by
    obtain ⟨hindex, haccount, -, -⟩ := h.account_at hmem hdup hia
    obtain ⟨-, before, after, hmem', hbefore⟩ := h.record_at haccount
    have hsmall := h.recordStart_small hshort (features.layout isLoaderDeprecated) index.toNat
    have hrecord := (features.layout isLoaderDeprecated).recordLen_le
      (h.entry_le hshort (mem_of_getElem? haccount))
    have hholds := Layout.holds_record hmem' (by
      simp only [SerializeAccount.entry, Layout.recordLen] at hrecord
      omega)
    rw [hbefore, h.recordStart_eq _ hindex, ← h.metadata_at haccount hm] at hholds
    exact hholds.congr (h.same.view _)
  resolved index hmem := by
    obtain ⟨k, hk⟩ := mem_iff_getElem?.mp hmem
    obtain ⟨account, -, hc⟩ := h.collected_at hk
    cases hc with
    | duplicate hdup | account hdup _ _ _ => exact ⟨_, hdup⟩
  free index hmem hdup ia hia := by
    obtain ⟨-, -, hrange, hfree⟩ := h.account_at hmem hdup hia
    exact ⟨h.same.len ▸ hrange, (h.same.borrowCounter _).trans hfree⟩
  bounded := by
    rw [BorrowedInstructionAccount.ResizeBounded, h.same.resizeDelta]
    exact hbounded
  short index hmem hdup ia hia := by
    rw [(h.same.view _).data]
    exact hshort ia (mem_of_getElem? hia)
  recorded index hmem hdup m hm := h.originalDataLen_le hshort hmem hdup hm
  kept _ index hmem hdup ia hia m hm := by
    obtain ⟨-, haccount, -, -⟩ := h.account_at hmem hdup hia
    rw [(h.same.view _).data, h.metadata_at haccount hm]
    rfl

end Serializes

end Serializes

/-- What is serialized and handed back unmodified is deserialized without an error, and
every account and both deltas are as they were before: for either layout, any
features, duplicates, flags, owners and instruction data. -/
theorem serialization_round_trip {bufferAddr : UInt64}
    (hserialize : (serializeParameters ext ic rent features bufferAddr).run a = .ok p a₁) (hshort : ic.Short a)
    (hbounded : BorrowedInstructionAccount.ResizeBounded a) :
    ∃ a₂, (deserializeParameters ext ic rent features p.mem p.accountsMetadata).run a₁ = .ok () a₂ ∧
      (∀ i, (a.view i).Same (a₂.view i)) ∧ a₂.resizeDelta = a.resizeDelta ∧
      a₂.lamportsDelta = a.lamportsDelta := by
  obtain ⟨owner, accounts, howner, h⟩ := serializeParameters_ok hserialize
  obtain ⟨a₂, hrun, hsame⟩ := deserialize_holds (howner.congr h.same) (h.readable hshort hbounded)
  have hall := h.same.trans hsame
  exact ⟨a₂, hrun, hall.view, hall.resizeDelta, hall.lamportsDelta⟩

end RoundTrip

/-! An instruction of a program of loader v1 with one account, named twice. -/

namespace Repeated

def ext : SerializeExternals :=
  { instructionsId := .replicate 32 1
    sysvarId := .replicate 32 2
    storeCurrentIndexChecked := fun _ _ => ([], .ok ())
    payloadAddr := fun _ _ => 0
    bpfLoaderDeprecatedId := .replicate 32 3 }

def accounts : TransactionAccounts :=
  .new [(.replicate 32 4, ⟨1, ⟨[], false, 0⟩, .replicate 32 3, true, 0⟩),
    (.replicate 32 5, ⟨7, ⟨[1, 2, 3], false, 0⟩, .replicate 32 4, false, 0⟩)]

def ic : InstructionContext :=
  { indexInTrace := 0
    nestingLevel := 0
    indexOfCallerInstruction := 0
    programAccountIndexInTx := 0
    instructionAccounts := [⟨1, false, true⟩, ⟨1, false, true⟩]
    dedupMap := [65535, 0]
    instructionData := [9] }

def features : InputFeatures := ⟨true, false, false⟩

def rent : Rent := ⟨fun _ _ => true⟩

/-- The program input of the instruction, if it is serialized. -/
def input : EStateM.Result Fault TransactionAccounts SerializedParameters :=
  (serializeParameters ext ic rent features 4096).run accounts

end Repeated

theorem serialization_round_trip_repeated :
    ∃ p a₁ a₂, Repeated.input = .ok p a₁ ∧
      (deserializeParameters Repeated.ext Repeated.ic Repeated.rent Repeated.features p.mem
        p.accountsMetadata).run a₁ = .ok () a₂ := by
  have hok : (match Repeated.input with
    | .ok _ _ => true
    | .error _ _ => false) = true := by decide +kernel
  cases h : Repeated.input with
  | error e a₁ => simp [h] at hok
  | ok p a₁ =>
    obtain ⟨a₂, hrun, -⟩ := serialization_round_trip h (by decide) (by decide)
    exact ⟨p, a₁, a₂, rfl, hrun⟩

end Svm
