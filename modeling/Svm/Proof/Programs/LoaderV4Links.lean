import Svm.Proof.Programs.LoaderV4Lifecycle

/-!
# Loader v4: links to the next version

A finalized program has the address of its next version where its authority was.
Such a link stays as it is, and no two programs are later versions of each other
(`loader_v4_links_acyclic`). A link is set to a program that is not finalized
(`Executes.finalize`): it ends where no other link starts, and closes no cycle
(`NoCycle.insert`).
-/

namespace Svm.LoaderV4

open Ledger Relation Function

/-! ## An edge more in a graph -/

section Graph

variable {α : Type} {target : α}

/-- No cycle of two or more nodes: no two nodes lead to each other. -/
def NoCycle (R : α → α → Prop) : Prop := ∀ x y, TransGen R x y → TransGen R y x → x = y

theorem NoCycle.mono (h : NoCycle R) (hle : ∀ x y, R' x y → R x y) : NoCycle R' :=
  fun x y hxy hyx => h x y (TransGen.mono hle _ _ hxy) (TransGen.mono hle _ _ hyx)

/-- An edge more, to a node that has no edge to another one. -/
theorem NoCycle.insert (h : NoCycle R) (hedge : ∀ x y, R' x y → R x y ∨ y = target)
    (hend : ∀ y, R' target y → y = target) : NoCycle R' := by
  have hpath (x y : α) (hxy : TransGen R' x y) : TransGen R x y ∨ y = target := by
    induction hxy with
    | single hxy => exact (hedge _ _ hxy).imp_left .single
    | tail _ hzy ih =>
      rcases ih with hxz | rfl
      · exact (hedge _ _ hzy).imp_left hxz.tail
      · exact .inr (hend _ hzy)
  have hstay (y : α) (hy : TransGen R' target y) : y = target := by
    induction hy with
    | single hy => exact hend _ hy
    | tail _ hzy ih => exact hend _ (ih ▸ hzy)
  intro x y hxy hyx
  rcases hpath x y hxy with hxy' | rfl
  · rcases hpath y x hyx with hyx' | rfl
    · exact h x y hxy' hyx'
    · exact (hstay y hxy).symm
  · exact hstay x hyx

end Graph

/-! ## Links -/

section Links

variable {id next : Pubkey}

/-- A finalized program, and the address of the next version in it. -/
structure Links (id : Pubkey) (w : Accounts) (p next : Pubkey) : Prop where
  finalized : phase id (w p) = .initialized (some .Finalized)
  next : authorityOf (w p).data = next

/-- An instruction of the loader at any slot, with any accounts and signers, or any other
program. -/
def Runs (id : Pubkey) (cooldown : UInt64) (w w' : World History) : Prop :=
  (∃ clock i signers, Executes id cooldown clock i signers w w') ∨
    ∃ program ≠ id, ∀ key, ProgramMay program (w.accounts key) (w'.accounts key)

theorem Links.congr {w w' : Accounts} (h : Links id w p next) (hdata : (w' p).data = (w p).data)
    (howner : (w' p).owner = (w p).owner) : Links id w' p next :=
  ⟨(phase_congr hdata howner).trans h.finalized, (congrArg authorityOf hdata).trans h.next⟩

theorem status_of_phase (h : phase id f = .initialized status) :
    f.owner = id ∧ programDataOffset ≤ f.data.length ∧ statusOf f.data = status := by
  unfold phase at h
  split_ifs at h with hf
  exact ⟨hf.1, hf.2, Phase.initialized.inj h⟩

/-- A program is finalized by the instruction for it only. -/
theorem Change.of_finalized (h : Change id cooldown clock signers f i f')
    (hf : phase id f' = .initialized (some .Finalized)) : i = .Finalize ∨ f'.data = f.data ∧ f'.owner = f.owner := by
  obtain ⟨-, hlen, hs'⟩ := status_of_phase hf
  cases h with
  | credit h => exact .inr ⟨rfl, rfl⟩
  | write _ hs _ hstate | resize _ hs _ _ hstate => cases hs'.symm.trans ((state_congr hstate).2.2.trans hs)
  | close | clear => exact absurd hlen (by simp [programDataOffset])
  | init _ _ _ _ _ _ hs => cases hs'.symm.trans hs
  | deploy h => cases hs'.symm.trans h.status
  | retract _ _ _ _ _ hs => cases hs'.symm.trans hs
  | transfer _ hs _ _ _ hsame => exact absurd (hsame.symm.trans hs') hs
  | finalize => exact .inl rfl

/-- Another program finalizes nothing. -/
theorem of_finalized_other {program : Pubkey} (hp : program ≠ id) (h : ProgramMay program f f')
    (hf : phase id f' = .initialized (some .Finalized)) : f'.data = f.data ∧ f'.owner = f.owner := by
  obtain ⟨-, hdata, howner, -⟩ | ⟨-, hzero⟩ := h.cases hp
  · exact ⟨hdata, howner⟩
  · obtain ⟨howner, -, hs⟩ := status_of_phase hf
    cases hs.symm.trans (zeroed_state (hzero howner)).1

/-- The program that is finalized, and its next version. -/
theorem Executes.finalize (h : Executes id cooldown clock .Finalize signers w w') :
    ∃ p f, w'.accounts = update w.accounts p f ∧
      statusOf (w.accounts (authorityOf f.data)).data ≠ some .Finalized := by
  obtain ⟨env, rent, ic, a, a', rfl, rfl, -, hinv, rfl, -⟩ := h
  obtain ⟨ia, f, hia, hl, -, j, hj, hnext, hs⟩ := processInstructionFinalize_ok hinv.run clock
  exact ⟨_, f, hinv.update hia hl, by rwa [hnext, hinv.before.at hj]⟩

theorem Runs.keeps (h : Runs id cooldown w w') (hp : Links id w.accounts p next) : Links id w'.accounts p next := by
  rcases h with ⟨clock, i, signers, h⟩ | ⟨program, hne, h⟩
  · obtain ⟨hdata, howner⟩ := (h.change p).lifecycle.finalized hp.finalized
    exact hp.congr hdata howner
  · obtain ⟨hdata, howner⟩ := (lifecycle_other hne (h p)).finalized hp.finalized
    exact hp.congr hdata howner

theorem NoCycle.step (hw : NoCycle (Links id w.accounts)) (h : Runs id cooldown w w') :
    NoCycle (Links id w'.accounts) := by
  rcases h with ⟨clock, i, signers, h⟩ | ⟨program, hne, h⟩
  · by_cases hi : i = .Finalize
    · subst hi
      obtain ⟨p, f, hf, hs⟩ := h.finalize
      -- a link of the new ledger is that of `p`, or was there before
      have hedge (x y : Pubkey) (hxy : Links id w'.accounts x y) :
          Links id w.accounts x y ∨ y = authorityOf f.data := by
        rw [hf] at hxy
        by_cases hx : x = p
        · subst hx
          exact .inr (by rw [← hxy.next, update_self])
        · exact .inl (hxy.congr (by rw [update_of_ne hx]) (by rw [update_of_ne hx]))
      refine hw.insert hedge fun y hy => (hedge _ y hy).resolve_left fun hold => ?_
      exact hs (status_of_phase hold.finalized).2.2
    · refine hw.mono fun x y hxy => ?_
      obtain ⟨hdata, howner⟩ := ((h.change x).of_finalized hxy.finalized).resolve_left hi
      exact hxy.congr hdata.symm howner.symm
  · refine hw.mono fun x y hxy => ?_
    obtain ⟨hdata, howner⟩ := of_finalized_other hne (h x) hxy.finalized
    exact hxy.congr hdata.symm howner.symm

/-- Over every sequence of instructions, with any accounts and signers, the links from
finalized programs to their next versions have no cycle of two or more programs, and a
link that is set stays as it is. -/
theorem loader_v4_links_acyclic (id : Pubkey) (cooldown : UInt64) (w₀ w : World History)
    (h₀ : NoCycle (Links id w₀.accounts)) (h : ReflTransGen (Runs id cooldown) w₀ w) :
    NoCycle (Links id w.accounts) ∧ ∀ p next, Links id w.accounts p next →
      ∀ w', ReflTransGen (Runs id cooldown) w w' → ∀ q, Links id w'.accounts p q ↔ q = next := by
  constructor
  · induction h with
    | refl => exact h₀
    | tail _ hstep ih => exact ih.step hstep
  · intro p next hp w' h' q
    have hkept : Links id w'.accounts p next := by
      induction h' with
      | refl => exact hp
      | tail _ hstep ih => exact hstep.keeps ih
    exact ⟨fun hq => hq.next.symm.trans hkept.next, fun hq => hq ▸ hkept⟩

end Links

open OneByte in
/-- The program of one byte is finalized. -/
theorem loader_v4_links_acyclic_finalize :
    let w := ofAccounts (after 0 .Finalize (accounts .Deployed))
    Links loader w key nextVersion ∧ NoCycle (Links loader w) := by
  refine ⟨⟨by decide +kernel, by decide +kernel⟩, (loader_v4_links_acyclic loader 1
    ⟨ofAccounts (accounts .Deployed), fun _ => []⟩ ⟨_, fun _ => []⟩ (fun x y hxy => ?_) (.single ?_)).1⟩
  · -- nothing is finalized yet
    obtain ⟨z, h, -⟩ := TransGen.head'_iff.mp hxy
    refine absurd h.finalized ?_
    by_cases hx : x ∈ (accounts .Deployed).accountKeys
    · clear hxy h
      revert x
      decide +kernel
    · rw [show World.accounts _ x = absent from ofAccounts_of_notMem hx]
      decide
  · cases step 0 .Finalize authority (accounts .Deployed) (by decide +kernel) ⟨fun _ => absent, fun _ => []⟩
      fun _ => [] with
    | instruction _ h => exact .inl ⟨0, .Finalize, [authority], h⟩

end Svm.LoaderV4
