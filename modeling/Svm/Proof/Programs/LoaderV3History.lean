import Svm.Proof.Programs.LoaderV3Lifecycle

/-!
# Loader v3: one change per slot

Over every run in which the slot changes between transactions only, the past of a program
fits its accounts (`Fits`): as long as it was not closed the last of its slots is the one
in the ProgramData account, and once it is closed its own account stays and names an
address without a program. `Shape` says what an instruction does to the records, and
`Coherent` is kept by each of its cases.
-/

namespace Svm.LoaderV3

open Ledger Function

section Ledger

variable {L : Loader} {clock clock' : UInt64} {call : Call} {w w' : Accounts} {history : History}
  {program programdata : Pubkey} {past : Past} {slot : UInt64}

/-! ## The past of a program and its accounts -/

/-- What the past of a program says about its accounts. -/
inductive Phase (L : Loader) (w : Accounts) (program : Pubkey) : Past → Prop
  | fresh : Phase L w program ⟨[], false⟩
  | live {slot : UInt64} {slots : List UInt64}
      (record : L.recordOf (w (L.programdataAddress program)) = some (.programData slot)) :
      Phase L w program ⟨slot :: slots, false⟩
  | closed {slots : List UInt64} (named : L.recordOf (w program) = some (.program (L.programdataAddress program)))
      (funded : (w program).lamports ≠ 0)
      (gone : ∀ slot, L.recordOf (w (L.programdataAddress program)) ≠ some (.programData slot)) :
      Phase L w program ⟨slots, true⟩

structure Fits (L : Loader) (clock : UInt64) (w : Accounts) (program : Pubkey) (past : Past) : Prop where
  ordered : past.slots.Pairwise (· > ·)
  bounded : ∀ slot ∈ past.slots, slot ≤ clock
  phase : Phase L w program past

variable (h : Fits L clock w program past)

include h

/-- The slots of a program, when something happens to it at another slot than that of its
ProgramData account. -/
theorem Fits.lt_clock
    (hrecord : L.recordOf (w (L.programdataAddress program)) = some (.programData slot)) (hne : clock ≠ slot) :
    ∀ slot ∈ past.slots, clock > slot := by
  obtain ⟨hordered, hbounded, hphase⟩ := h
  cases hphase with
  | fresh => nofun
  | @live last slots record =>
    obtain rfl : last = slot := by
      rw [record] at hrecord
      exact Record.programData.inj (Option.some.inj hrecord)
    have hlast : clock > last := UInt64.lt_of_le_of_ne (hbounded last List.mem_cons_self) hne.symm
    intro slot hslot
    rcases List.mem_cons.mp hslot with rfl | hslot
    · exact hlast
    · exact UInt64.lt_trans ((List.pairwise_cons.mp hordered).1 slot hslot) hlast
  | closed named funded gone => exact absurd hrecord (gone slot)

theorem Fits.not_closed
    (hrecord : L.recordOf (w (L.programdataAddress program)) = some (.programData slot)) : past.closed = false := by
  cases h.phase with
  | fresh => rfl
  | live record => rfl
  | closed named funded gone => exact absurd hrecord (gone slot)

/-- A slot is added to the past. -/
theorem Fits.cons (hlt : ∀ slot ∈ past.slots, clock > slot)
    (hphase : Phase L w' program ⟨clock :: past.slots, closed⟩) :
    Fits L clock w' program ⟨clock :: past.slots, closed⟩ where
  ordered := List.pairwise_cons.mpr ⟨hlt, h.ordered⟩
  bounded slot hslot := by
    rcases List.mem_cons.mp hslot with rfl | hslot
    · exact UInt64.le_refl _
    · exact h.bounded slot hslot
  phase := hphase

theorem Fits.mono (hle : clock ≤ clock') : Fits L clock' w program past :=
  ⟨h.ordered, fun slot hslot => UInt64.le_trans (h.bounded slot hslot) hle, h.phase⟩

/-- Nothing has happened to the program. -/
theorem Fits.congr (hphase : past ≠ ⟨[], false⟩ → Phase L w program past → Phase L w' program past) :
    Fits L clock w' program past := by
  refine ⟨h.ordered, h.bounded, ?_⟩
  by_cases hfresh : past = ⟨[], false⟩
  · exact hfresh ▸ .fresh
  · exact hphase hfresh h.phase

omit h

/-- The records of the two accounts of a program stay as far as the past speaks of them. -/
theorem Phase.keep (h : Phase L w program past)
    (hprogram : L.recordOf (w program) = some (.program (L.programdataAddress program)) →
      Quiet L (w program) (w' program))
    (hlive : ∀ slot, L.recordOf (w (L.programdataAddress program)) = some (.programData slot) →
      L.recordOf (w' (L.programdataAddress program)) = some (.programData slot))
    (hgone : (∀ slot, L.recordOf (w (L.programdataAddress program)) ≠ some (.programData slot)) →
      ∀ slot, L.recordOf (w' (L.programdataAddress program)) ≠ some (.programData slot)) :
    Phase L w' program past := by
  cases h with
  | fresh => exact .fresh
  | live record => exact .live (hlive _ record)
  | closed named funded gone =>
    have hquiet := hprogram named
    refine .closed (hquiet.record.trans named) ?_ (hgone gone)
    exact lamports_ne_zero_of_le funded (hquiet.funded (by rw [named]; nofun))

/-! ## The ledger -/

/-- The past of every program fits its accounts. -/
structure Coherent (L : Loader) (clock : UInt64) (w : Accounts) (history : History) : Prop where
  named : ∀ program programdata, L.recordOf (w program) = some (.program programdata) →
    programdata = L.programdataAddress program
  /-- A program without lamports, which the transaction will remove, was deployed in this slot. -/
  unfunded : ∀ program programdata, L.recordOf (w program) = some (.program programdata) → (w program).lamports = 0 →
    L.recordOf (w programdata) = some (.programData clock)
  fits : ∀ program, Fits L clock w program (history program)

theorem Coherent.unfunded_before (h : Coherent L clock w history) (hquiet : Quiet L (w key) (w' key))
    (hrecord : L.recordOf (w' key) = some (.program programdata)) (hl : (w' key).lamports = 0) :
    L.recordOf (w programdata) = some (.programData clock) := by
  rw [hquiet.record] at hrecord
  refine h.unfunded key programdata hrecord ?_
  by_contra hne
  exact lamports_ne_zero_of_le hne (hquiet.funded (by rw [hrecord]; nofun)) hl

theorem Coherent.of_quiet (h : Coherent L clock w history) (hquiet : ∀ key, Quiet L (w key) (w' key)) :
    Coherent L clock w' history where
  named program programdata hrecord := h.named program programdata ((hquiet program).record ▸ hrecord)
  unfunded program programdata hrecord hl :=
    (hquiet programdata).record.trans (h.unfunded_before (hquiet program) hrecord hl)
  fits program := (h.fits program).congr fun _ hphase => by
    refine hphase.keep (fun _ => hquiet program) (fun slot hslot => ?_) (fun hgone slot => ?_)
    · rw [(hquiet _).record, hslot]
    · rw [(hquiet _).record]
      exact hgone slot

theorem collect_of_record {w : World History} (h : L.recordOf (w.collect.accounts key) = some record) :
    (w.accounts key).lamports ≠ 0 ∧ L.recordOf (w.accounts key) = some record := by
  by_cases hl : (w.accounts key).lamports = 0
  · rw [show w.collect.accounts key = absent from if_pos hl, recordOf_absent] at h
    cases h
  · rw [show w.collect.accounts key = w.accounts key from if_neg hl] at h
    exact ⟨hl, h⟩

theorem Phase.collect {w : World History} (h : Phase L w.accounts program past) (hfunded : Funded L w.accounts) :
    Phase L w.collect.accounts program past := by
  have hkept {key : Pubkey} hl : w.collect.accounts key = w.accounts key := if_neg hl
  cases h with
  | fresh => exact .fresh
  | live record =>
    refine .live ?_
    rw [hkept (hfunded _ _ record)]
    exact record
  | closed named funded gone =>
    refine .closed ?_ ?_ fun slot hslot => gone slot (collect_of_record hslot).2
    · rw [hkept funded]
      exact named
    · rw [hkept funded]
      exact funded

/-- The accounts without lamports are removed. -/
theorem Coherent.collect {w : World History} (h : Coherent L clock w.accounts w.history) (hfunded : Funded L w.accounts) :
    Coherent L clock w.collect.accounts w.collect.history where
  named program programdata hrecord := h.named program programdata (collect_of_record hrecord).2
  unfunded program programdata hrecord hl := by
    have hne := (collect_of_record hrecord).1
    rw [show w.collect.accounts program = w.accounts program from if_neg hne] at hl
    exact absurd hl hne
  fits program := (h.fits program).congr fun _ hphase => hphase.collect hfunded

/-- The next slot, when every account that says something has lamports. -/
theorem Coherent.tick (h : Coherent L clock w history) (hle : clock ≤ clock')
    (hfunded : ∀ key, (w key).lamports = 0 → L.recordOf (w key) = none) : Coherent L clock' w history where
  named := h.named
  unfunded program programdata hrecord hl := by
    rw [hfunded program hl] at hrecord
    cases hrecord
  fits program := (h.fits program).mono hle

/-! ## Instructions -/

theorem record_none (h : L.affected call w = none) : L.record clock call w history = history := by
  rw [Loader.record, h]

theorem record_some (h : L.affected call w = some (program, closes)) :
    L.record clock call w history = update history program
      ⟨clock :: (history program).slots, (history program).closed || closes⟩ := by
  rw [Loader.record, h]

/-- The program has a ProgramData account of its own, among those with a past. -/
def Apart (L : Loader) (history : History) (program : Pubkey) : Prop :=
  ∀ key, key ≠ program → history key ≠ ⟨[], false⟩ → L.programdataAddress key ≠ L.programdataAddress program

/-- The derived addresses differ for the programs that have a past. -/
def Derives (L : Loader) (history : History) : Prop :=
  Set.InjOn L.programdataAddress {program | history program ≠ ⟨[], false⟩}

theorem Derives.apart (h : Derives L (L.record clock call w history))
    (haffected : L.affected call w = some (program, closes)) : Apart L history program := by
  rw [record_some haffected] at h
  refine fun key hkey hpast heq => hkey (h ?_ ?_ heq)
  · rwa [Set.mem_ofPred, update_of_ne hkey]
  · rw [Set.mem_ofPred, update_self]
    nofun

/-- A program that is deployed. -/
theorem Coherent.deployed (h : Coherent L clock w history) (hapart : Apart L history program)
    (before : L.recordOf (w program) = none) (vacant : L.recordOf (w (L.programdataAddress program)) = none)
    (after : L.recordOf (w' program) = some (.program (L.programdataAddress program)))
    (created : L.recordOf (w' (L.programdataAddress program)) = some (.programData clock))
    (others : ∀ key, key ≠ program → key ≠ L.programdataAddress program → Quiet L (w key) (w' key)) :
    Coherent L clock w' (update history program
      ⟨clock :: (history program).slots, (history program).closed || false⟩) := by
  -- An account with a record of before is none of the two.
  have hquiet {key : Pubkey} (hrecord : L.recordOf (w key) ≠ none) : Quiet L (w key) (w' key) := by
    refine others key ?_ ?_
    · rintro rfl
      exact hrecord before
    · rintro rfl
      exact hrecord vacant
  refine ⟨fun key programdata hrecord => ?_, fun key programdata hrecord hl => ?_, fun key => ?_⟩
  · by_cases hprogram : key = program
    · subst hprogram
      rw [after] at hrecord
      exact (Record.program.inj (Option.some.inj hrecord)).symm
    by_cases hprogramdata : key = L.programdataAddress program
    · rw [hprogramdata, created] at hrecord
      cases hrecord
    · exact h.named key programdata ((others key hprogram hprogramdata).record ▸ hrecord)
  · by_cases hprogram : key = program
    · subst hprogram
      rw [after] at hrecord
      rw [← Record.program.inj (Option.some.inj hrecord)]
      exact created
    by_cases hprogramdata : key = L.programdataAddress program
    · rw [hprogramdata, created] at hrecord
      cases hrecord
    · have hdata := h.unfunded_before (others key hprogram hprogramdata) hrecord hl
      rw [(hquiet (by rw [hdata]; nofun)).record]
      exact hdata
  · by_cases hprogram : key = program
    · subst hprogram
      rw [update_self]
      have hfresh : history key = ⟨[], false⟩ := by
        cases hpast : history key with
        | mk slots closed =>
          have hphase := (h.fits key).phase
          rw [hpast] at hphase
          cases hphase with
          | fresh => rfl
          | live record =>
            rw [vacant] at record
            cases record
          | closed named funded gone =>
            rw [before] at named
            cases named
      refine (h.fits key).cons ?_ ?_
      · rw [hfresh]
        nofun
      · rw [hfresh]
        exact .live created
    · rw [update_of_ne hprogram]
      refine (h.fits key).congr fun hpast hphase => hphase.keep (fun hnamed => hquiet (by rw [hnamed]; nofun)) ?_ ?_
      · intro slot hslot
        rw [(hquiet (by rw [hslot]; nofun)).record]
        exact hslot
      · intro hgone slot hslot
        by_cases hsame : L.programdataAddress key = program
        · rw [hsame, after] at hslot
          cases hslot
        · rw [(others _ hsame (hapart key hprogram hpast)).record] at hslot
          exact hgone slot hslot

/-- An upgrade, an extension or a closing leaves the other programs. -/
theorem Coherent.affected (h : Coherent L clock w history) (hapart : Apart L history program)
    (before : L.recordOf (w (L.programdataAddress program)) = some (.programData slot)) (slot_ne : clock ≠ slot)
    (after : ∀ programdata, L.recordOf (w' (L.programdataAddress program)) ≠ some (.program programdata))
    (others : ∀ key, key ≠ L.programdataAddress program → Quiet L (w key) (w' key))
    (hfits : Fits L clock w' program past) : Coherent L clock w' (update history program past) := by
  have hquiet {key programdata : Pubkey} (hrecord : L.recordOf (w' key) = some (.program programdata)) :
      Quiet L (w key) (w' key) := by
    refine others key ?_
    rintro rfl
    exact after programdata hrecord
  refine ⟨fun key programdata hrecord => ?_, fun key programdata hrecord hl => ?_, fun key => ?_⟩
  · exact h.named key programdata ((hquiet hrecord).record ▸ hrecord)
  · have hdata := h.unfunded_before (hquiet hrecord) hrecord hl
    have hne : programdata ≠ L.programdataAddress program := by
      rintro rfl
      rw [before] at hdata
      exact slot_ne (Record.programData.inj (Option.some.inj hdata)).symm
    rw [(others programdata hne).record]
    exact hdata
  · by_cases hkey : key = program
    · subst hkey
      rw [update_self]
      exact hfits
    rw [update_of_ne hkey]
    refine (h.fits key).congr fun hpast hphase => ?_
    have hne := hapart key hkey hpast
    refine hphase.keep (fun hnamed => others key ?_) ?_ ?_
    · rintro rfl
      rw [before] at hnamed
      cases hnamed
    · intro slot hslot
      rw [(others _ hne).record]
      exact hslot
    · intro hgone slot
      rw [(others _ hne).record]
      exact hgone slot

/-- An instruction keeps the past of every program in line with its accounts. -/
theorem Shape.coherent (h : Shape L clock call w w') (hderives : Derives L (L.record clock call w history))
    (hw : Coherent L clock w history) : Coherent L clock w' (L.record clock call w history) := by
  cases h with
  | quiet affected quiet =>
    rw [record_none affected]
    exact hw.of_quiet quiet
  | deployed program affected before vacant after created funded others =>
    rw [record_some affected]
    exact hw.deployed (hderives.apart affected) before vacant after created others
  | updated program programdata slot affected named before slot_ne after funded others =>
    obtain rfl := hw.named program programdata named
    rw [record_some affected]
    refine hw.affected (hderives.apart affected) before slot_ne (fun programdata h => nomatch after.symm.trans h) others ?_
    rw [(hw.fits program).not_closed before]
    exact (hw.fits program).cons ((hw.fits program).lt_clock before slot_ne) (.live after)
  | closed program programdata slot affected named before slot_ne after others =>
    obtain rfl := hw.named program programdata named
    rw [record_some affected, Bool.or_true]
    refine hw.affected (hderives.apart affected) before slot_ne (fun programdata h => nomatch after.symm.trans h) others ?_
    have hne : program ≠ L.programdataAddress program := by
      intro heq
      rw [← heq, named] at before
      cases before
    have hquiet := others program hne
    have hfunded : (w program).lamports ≠ 0 := by
      intro hl
      have hdata := hw.unfunded program _ named hl
      rw [before] at hdata
      exact slot_ne (Record.programData.inj (Option.some.inj hdata)).symm
    have hphase := (hw.fits program).lt_clock before slot_ne
    refine (hw.fits program).cons hphase (.closed (hquiet.record.trans named) ?_ ?_)
    · exact lamports_ne_zero_of_le hfunded (hquiet.funded (by rw [named]; nofun))
    · intro slot hslot
      rw [after] at hslot
      cases hslot

/-! ## Runs -/

/-- The past of every program fits its accounts, whether the transaction is discarded or
not, and what a transaction has left has lamports. -/
structure Consistent (L : Loader) (s : State History) : Prop where
  pending : Coherent L s.clock s.pending.accounts s.pending.history
  committed : Coherent L s.clock s.committed.accounts s.committed.history
  collected : ∀ key, (s.committed.accounts key).lamports = 0 → L.recordOf (s.committed.accounts key) = none
  funded : AllFunded L s

variable {s s' : State History} {action : Action Call}

theorem Consistent.step (h : Consistent L s) (hderives : Derives L s'.pending.history)
    (hstep : Step (rules L) action s s') (htick : action = .tick → s.pending = s.committed) : Consistent L s' := by
  have hfunded := h.funded.step hstep
  cases hstep with
  | instruction hsign hexec =>
    obtain ⟨heffect, hhistory⟩ := Executes.effect hexec
    exact ⟨hhistory ▸ heffect.shape.coherent (hhistory ▸ hderives) h.pending, h.committed, h.collected, hfunded⟩
  | other hprogram hmay =>
    exact ⟨h.pending.of_quiet fun key => .of_programMay hprogram (hmay key), h.committed, h.collected, hfunded⟩
  | commit =>
    have hcollect := h.pending.collect h.funded.pending
    refine ⟨hcollect, hcollect, fun key hl => ?_, hfunded⟩
    cases hrecord : L.recordOf (s.pending.collect.accounts key) with
    | none => rfl
    | some record =>
      have hne := (collect_of_record hrecord).1
      rw [show s.pending.collect.accounts key = s.pending.accounts key from if_neg hne] at hl
      exact absurd hl hne
  | abort => exact ⟨h.committed, h.committed, h.collected, hfunded⟩
  | tick hle =>
    have hcommitted := h.committed.tick hle h.collected
    exact ⟨htick rfl ▸ hcommitted, hcommitted, h.collected, hfunded⟩

/-- A run in which the slot changes between transactions only, and only programs of the set
are deployed, upgraded, extended or closed. -/
def ReachWithin (L : Loader) (programs : Set Pubkey) : State History → State History → Prop :=
  Relation.ReflTransGen fun s s' => (∃ action, Step (rules L) action s s' ∧ (action = .tick → s.pending = s.committed)) ∧
    ∀ program, s'.pending.history program ≠ ⟨[], false⟩ → program ∈ programs

theorem ReachWithin.consistent (h0 : Consistent L s) (hinj : Set.InjOn L.programdataAddress programs)
    (h : ReachWithin L programs s s') : Consistent L s' := by
  induction h with
  | refl => exact h0
  | tail _ hstep ih =>
    obtain ⟨⟨action, hstep, htick⟩, hprograms⟩ := hstep
    exact ih.step (hinj.mono hprograms) hstep htick

theorem State.Settled.consistent (h : s.Settled) (hempty : ∀ program, s.committed.history program = ⟨[], false⟩)
    (hnamed : ∀ program programdata, L.stateOf (s.committed.accounts program) = some (.Program programdata) →
      programdata = L.programdataAddress program) : Consistent L s := by
  have hcollected (key : Pubkey) (hl : (s.committed.accounts key).lamports = 0) :
      L.recordOf (s.committed.accounts key) = none := by
    rw [h.funded key hl, recordOf_absent]
  have hcommitted : Coherent L s.clock s.committed.accounts s.committed.history := by
    refine ⟨fun program programdata hr => hnamed program programdata (recordOf_program.mp hr),
      fun program programdata hr hl => ?_, fun program => ?_⟩
    · rw [hcollected program hl] at hr
      cases hr
    · rw [hempty program]
      exact ⟨.nil, nofun, .fresh⟩
  exact ⟨h.pending ▸ hcommitted, hcommitted, hcollected, allFunded h⟩

/-- A program that was closed is not deployed. -/
theorem Coherent.not_deployed (h : Coherent L clock w history) (hclosed : (history program).closed = true) :
    ¬ L.Deployed w program := by
  rintro ⟨programdata, slot, authority, hprogram, hprogramdata⟩
  obtain rfl := h.named program programdata (recordOf_program.mpr hprogram)
  have hopen := (h.fits program).not_closed (recordOf_programData.mpr ⟨authority, hprogramdata⟩)
  rw [hclosed] at hopen
  cases hopen

/-- The last slot of a program that was not closed is that of its ProgramData account. -/
theorem Fits.stored (h : Fits L clock w program past) (hclosed : past.closed = false)
    (hslot : slot ∈ past.slots.head?) :
    ∃ authority, L.stateOf (w (L.programdataAddress program)) = some (.ProgramData slot authority) := by
  cases h.phase with
  | fresh => cases hslot
  | live record =>
    cases hslot
    exact recordOf_programData.mp record
  | closed named funded gone => cases hclosed

/-- Loader-v3 one change per slot and no resurrection. Over every sequence of transactions
of loader instructions with any accounts, interleaved with other programs within the access
rules, where the slot never goes back and changes between transactions only, from a ledger
whose Program accounts name the addresses derived from theirs, and where no two programs of
the run derive one address: the slots of the deployment,
the upgrades, the extensions and the closing of a program strictly increase, the last of
them is stored in its ProgramData account as long as it was not closed, and once it was
closed the program's address never points to a ProgramData account again. -/
theorem loader_v3_one_change_per_slot (L : Loader) (s₀ s : State History) (programs : Set Pubkey)
    (hinj : Set.InjOn L.programdataAddress programs) (hsettled : s₀.Settled)
    (hempty : ∀ program, s₀.committed.history program = ⟨[], false⟩)
    (hnamed : ∀ program programdata, L.stateOf (s₀.committed.accounts program) = some (.Program programdata) →
      programdata = L.programdataAddress program)
    (hreach : ReachWithin L programs s₀ s) (w : World History) (hw : w = s.pending ∨ w = s.committed) (program : Pubkey) :
    (w.history program).slots.Pairwise (· > ·) ∧ (∀ slot ∈ (w.history program).slots, slot ≤ s.clock) ∧
      ((w.history program).closed = false → ∀ slot ∈ (w.history program).slots.head?,
        ∃ authority, L.stateOf (w.accounts (L.programdataAddress program)) = some (.ProgramData slot authority)) ∧
      ((w.history program).closed = true → ¬ L.Deployed w.accounts program) := by
  have hconsistent := ReachWithin.consistent (State.Settled.consistent hsettled hempty hnamed) hinj hreach
  have hcoherent : Coherent L s.clock w.accounts w.history := by
    rcases hw with rfl | rfl
    · exact hconsistent.pending
    · exact hconsistent.committed
  have hfits := hcoherent.fits program
  exact ⟨hfits.ordered, hfits.bounded, fun hclosed slot hslot => hfits.stored hclosed hslot, hcoherent.not_deployed⟩

end Ledger

namespace OneProgram

theorem derive_not_surjective : ¬ Surjective derive := by
  intro h
  obtain ⟨key, hkey⟩ := h authority
  have hodd : (2 : UInt8) * key[0] = 3 := by simpa [derive, authority] using congrArg (·[0]) hkey
  have hnat := congrArg UInt8.toNat hodd
  rw [UInt8.toNat_mul, show (2 : UInt8).toNat = 2 from rfl, show (3 : UInt8).toNat = 3 from rfl] at hnat
  omega

/-- The program names the address derived from its own. -/
theorem settled_named {programdata : Pubkey}
    (h : loader.stateOf (settled.committed.accounts key) = some (.Program programdata)) : programdata = derive key := by
  have hall : ∀ key ∈ accounts.accountKeys,
      loader.stateOf (ofAccounts accounts key) = some (.Program (derive key)) ∨
        (loader.stateOf (ofAccounts accounts key)).map UpgradeableLoaderState.ctorIdx ≠ some 2 := by decide +kernel
  by_cases hkey : key ∈ accounts.accountKeys
  · replace h : loader.stateOf (ofAccounts accounts key) = some (.Program programdata) := h
    rcases hall key hkey with hnamed | hother
    · rw [h] at hnamed
      cases hnamed
      rfl
    · rw [h] at hother
      exact absurd rfl hother
  · rw [show settled.committed.accounts key = absent from ofAccounts_of_notMem hkey] at h
    cases h

end OneProgram

open OneProgram in
/-- The program that is closed in the slot after its deployment. Not every address is a
derived one. -/
theorem loader_v3_one_change_per_slot_closed :
    ¬ Surjective loader.programdataAddress ∧ afterClose.pending.history program = ⟨[1], true⟩ ∧
      ¬ loader.Deployed afterClose.pending.accounts program := by
  have hpast : afterClose.pending.history program = ⟨[1], true⟩ := by simp only [afterClose, update_self]
  have hprograms (key : Pubkey) (hkey : afterClose.pending.history key ≠ ⟨[], false⟩) : key ∈ ({program} : Set Pubkey) :=
    by_contra fun hne => hkey (show update (fun _ => (⟨[], false⟩ : Past)) program ⟨[1], true⟩ key = _ from
      update_of_ne hne ..)
  refine ⟨derive_not_surjective, hpast, ?_⟩
  exact (loader_v3_one_change_per_slot loader settled afterClose {program} (Set.injOn_singleton ..) settled_settled
    (fun _ => rfl) (fun _ _ => settled_named) (.single ⟨⟨_, step_close, nofun⟩, hprograms⟩) afterClose.pending (.inl rfl)
    program).2.2.2 (by rw [hpast])

end Svm.LoaderV3
