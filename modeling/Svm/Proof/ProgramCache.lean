import Svm.Spec.ProgramCache

/-!
# The program cache is correct on every fork

Every reachable cache keeps the versions of a program in the order of their places,
and those at or below the root on the rooted chain (`Reachable.ordered`). Then the one
scan of `extract` finds what the newest visible version decides (`forkCorrect_lookup`),
and `extract` puts that into the view of the batch (`extract_forkCorrect`).
-/

namespace Svm

open List

variable {Env Exe : Type} {e : ProgramCacheEntry Env Exe}

/-! ## Chains -/

namespace ForkTree.OnChain

variable {t : ForkTree}

theorem le (h : t.OnChain a b) : a ≤ b := by
  induction h with
  | refl => exact le_refl _
  | step hparent _ ih => exact ih.trans (t.parent_lt hparent).le

theorem trans (hab : t.OnChain a b) (hbc : t.OnChain b c) : t.OnChain a c := by
  induction hbc with
  | refl => exact hab
  | step hparent _ ih => exact .step hparent ih

end ForkTree.OnChain

/-! ## Places -/

namespace ProgramCacheEntry

variable {e' : ProgramCacheEntry Env Exe}

theorem effectiveSlot_le_of_place_le (h : e.place ≤ e'.place) : e.effectiveSlot ≤ e'.effectiveSlot := by
  rcases Prod.Lex.toLex_le_toLex.mp h with h | h
  · exact h.le
  · exact h.1.le

theorem slots_eq_of_place_eq (h : e.place = e'.place) :
    e.effectiveSlot = e'.effectiveSlot ∧ e.deploymentSlot = e'.deploymentSlot := by
  simpa [place] using h

theorem lt_effectiveSlot_of_delayed (h : e.isImplicitDelayVisibilityTombstone slot = true) :
    slot < e.effectiveSlot := by
  simp only [isImplicitDelayVisibilityTombstone, Bool.and_eq_true, decide_eq_true_eq] at h
  exact h.2

/-- A version that is visible is in its delay just if it is not effective yet. -/
theorem Visible.delayed_iff (h : e.Visible t slot) :
    e.isImplicitDelayVisibilityTombstone slot = true ↔ slot < e.effectiveSlot :=
  ⟨lt_effectiveSlot_of_delayed, fun hlt => h.2.resolve_left hlt.not_ge⟩

end ProgramCacheEntry

namespace ProgramCache

open ProgramCacheEntry Search

variable {t : ForkTree} {c : ProgramCache Env Exe}

/-! ## Caches in order -/

/-- The versions of every program are in the order of their places. -/
def Sorted (c : ProgramCache Env Exe) : Prop := ∀ key, (c.entries key).Pairwise fun e e' => e.place ≤ e'.place

section Assign

variable [DecidableEq Env] {versions : List (ProgramCacheEntry Env Exe)}

theorem comparePlace_of_lt (h : e.place < entry.place) : comparePlace env entry e = .lt := by
  rcases Prod.Lex.toLex_lt_toLex.mp h with h | ⟨heq, h⟩
  · simp [comparePlace, Nat.compare_eq_lt.mpr h]
  · have heq : e.effectiveSlot = entry.effectiveSlot := heq
    simp [comparePlace, heq, Nat.compare_eq_lt.mpr h]

theorem comparePlace_of_gt (h : entry.place < e.place) : comparePlace env entry e = .gt := by
  rcases Prod.Lex.toLex_lt_toLex.mp h with h | ⟨heq, h⟩
  · simp [comparePlace, Nat.compare_eq_gt.mpr h]
  · have heq : entry.effectiveSlot = e.effectiveSlot := heq
    simp [comparePlace, heq, Nat.compare_eq_gt.mpr h]

theorem place_eq_of_comparePlace (h : comparePlace env entry e = .eq) : entry.place = e.place := by
  rcases lt_trichotomy e.place entry.place with hlt | heq | hgt
  · rw [comparePlace_of_lt hlt] at h
    cases h
  · exact heq.symm
  · rw [comparePlace_of_gt hgt] at h
    cases h

theorem sorted_assignVersion (hsearch : Searches search)
    (hsorted : versions.Pairwise fun e e' => e.place ≤ e'.place) :
    (assignVersion search env versions entry).1.Pairwise fun e e' => e.place ≤ e'.place := by
  have hfound := hsearch.sorted (f := comparePlace env entry) hsorted
    (fun e => comparePlace_of_lt) (fun e => comparePlace_of_gt)
  rw [assignVersion]
  cases hs : search (comparePlace env entry) versions with
  | ok index =>
    simp only [hs] at hfound ⊢
    obtain ⟨e, he, heq⟩ := hfound
    split_ifs
    · exact (pairwise_set hsorted he (place_eq_of_comparePlace heq)).sublist filter_sublist
    · exact hsorted
  | error index =>
    simp only [hs] at hfound ⊢
    exact (pairwise_insert hsorted hfound.1 hfound.2).sublist filter_sublist

theorem mem_assignVersion (h : e ∈ (assignVersion search env versions entry).1) : e = entry ∨ e ∈ versions := by
  rw [assignVersion] at h
  split at h
  · split_ifs at h
    · exact (mem_or_eq_of_mem_set (mem_filter.mp h).1).symm
    · exact .inr h
  · rcases mem_append.mp (mem_filter.mp h).1 with h | h
    · exact .inr (mem_of_mem_take h)
    · rcases mem_cons.mp h with h | h
      · exact .inl h
      · exact .inr (mem_of_mem_drop h)

end Assign

section Prune

variable [DecidableEq Env] (graph : ForkGraph) (latestRootSlot newRootSlot : Slot) (upcoming : Option Env)

/-- The entry is on the chain of the new root as far as the scan can tell. -/
def SeemsRooted (entry : ProgramCacheEntry Env Exe) : Prop :=
  newRootSlot ≤ entry.deploymentSlot ∨ graph.relationship entry.deploymentSlot newRootSlot = .Ancestor ∨
    entry.deploymentSlot ≤ latestRootSlot

variable (firstAncestor : Option (Option Env))

/-- The first filter of `prune` on one entry: what it remembers if the entry passes. -/
def select (entry : ProgramCacheEntry Env Exe) : Option (Option (Option Env)) :=
  if newRootSlot ≤ entry.deploymentSlot then
    if graph.relationship entry.deploymentSlot newRootSlot = .Equal ∨
        graph.relationship entry.deploymentSlot newRootSlot = .Descendant then some firstAncestor
    else none
  else if graph.relationship entry.deploymentSlot newRootSlot = .Ancestor ∨ entry.deploymentSlot ≤ latestRootSlot then
    match firstAncestor with
    | none => some (some entry.program.getEnvironment)
    | some env =>
      match entry.program.getEnvironment, env with
      | some entryEnv, some env => if entryEnv ≠ env then some firstAncestor else none
      | _, _ => none
  else none

theorem seemsRooted_of_select {firstAncestor : Option (Option Env)}
    (h : (select graph latestRootSlot newRootSlot firstAncestor entry).isSome) :
    SeemsRooted graph latestRootSlot newRootSlot entry := by
  unfold select at h
  by_cases hge : newRootSlot ≤ entry.deploymentSlot
  · exact .inl hge
  · rw [if_neg hge] at h
    by_cases hanc : graph.relationship entry.deploymentSlot newRootSlot = .Ancestor ∨
        entry.deploymentSlot ≤ latestRootSlot
    · exact .inr hanc
    · rw [if_neg hanc] at h
      cases h

/-- One step of the scan. -/
theorem pruneScan_cons (entry) (l : List (ProgramCacheEntry Env Exe)) :
    pruneScan graph latestRootSlot newRootSlot upcoming firstAncestor (entry :: l) =
      match select graph latestRootSlot newRootSlot firstAncestor entry with
      | some firstAncestor' =>
        if isOutdated upcoming entry then pruneScan graph latestRootSlot newRootSlot upcoming firstAncestor' l
        else entry :: pruneScan graph latestRootSlot newRootSlot upcoming firstAncestor' l
      | none => pruneScan graph latestRootSlot newRootSlot upcoming firstAncestor l := by
  generalize hscan : pruneScan graph latestRootSlot newRootSlot upcoming firstAncestor (entry :: l) = scanned
  unfold pruneScan at hscan
  unfold select
  rw [← hscan]
  by_cases hge : newRootSlot ≤ entry.deploymentSlot
  · rw [if_pos hge]
    split <;> rfl
  · rw [if_neg hge]
    split
    case isTrue =>
      cases firstAncestor with
      | none => rfl
      | some env =>
        cases entry.program.getEnvironment with
        | none => rfl
        | some entryEnv =>
          cases env with
          | none => rfl
          | some env =>
            dsimp only
            split <;> rfl
    case isFalse => rfl

theorem pruneScan_sublist (l : List (ProgramCacheEntry Env Exe)) :
    (pruneScan graph latestRootSlot newRootSlot upcoming firstAncestor l).Sublist l := by
  induction l generalizing firstAncestor with
  | nil => exact List.Sublist.refl _
  | cons entry l ih =>
    rw [pruneScan_cons]
    split
    · split_ifs
      · exact (ih _).cons entry
      · exact (ih _).cons_cons entry
    · exact (ih _).cons entry

theorem seemsRooted_of_mem_pruneScan {firstAncestor : Option (Option Env)}
    (he : e ∈ pruneScan graph latestRootSlot newRootSlot upcoming firstAncestor l) :
    SeemsRooted graph latestRootSlot newRootSlot e := by
  induction l generalizing firstAncestor with
  | nil => cases he
  | cons entry l ih =>
    rw [pruneScan_cons] at he
    split at he
    case h_1 hselect =>
      split_ifs at he
      · exact ih he
      · rcases mem_cons.mp he with rfl | he
        · exact seemsRooted_of_select graph latestRootSlot newRootSlot (by rw [hselect]; rfl)
        · exact ih he
    case h_2 => exact ih he

theorem prune_sublist {graph : Option ForkGraph} {newRootSlot : Slot} {upcoming : Option Env} (key) :
    ((c.prune graph newRootSlot upcoming).entries key).Sublist (c.entries key) := by
  cases graph with
  | none => exact List.Sublist.refl _
  | some graph =>
    have hscan := (pruneScan_sublist graph c.latestRootSlot newRootSlot upcoming none (c.entries key).reverse).reverse
    rwa [reverse_reverse] at hscan

end Prune

section Evict

theorem place_toUnloaded (e : ProgramCacheEntry Env Exe) : (e.toUnloaded.getD e).place = e.place := by
  rw [toUnloaded]
  split <;> rfl

theorem map_unloadVersion {β : Type} {f : ProgramCacheEntry Env Exe → β}
    (hf : ∀ e, f (e.toUnloaded.getD e) = f e) (removeEntry)
    (l) : (unloadVersion removeEntry l).map f = l.map f := by
  induction l with
  | nil => rfl
  | cons e l ih =>
    rw [unloadVersion]
    split_ifs
    · rw [map_cons, hf, map_cons]
    · rw [map_cons, ih, map_cons]

end Evict

/-! ## What operations keep -/

section Keeps

variable [DecidableEq Env] {P : Pubkey → List (ProgramCacheEntry Env Exe) → Prop}

omit [DecidableEq Env] in
theorem removePrograms_sublist {keys : List Pubkey} (key) :
    ((c.removePrograms keys).entries key).Sublist (c.entries key) := by
  simp only [removePrograms]
  split_ifs
  · exact nil_sublist _
  · exact List.Sublist.refl _

omit [DecidableEq Env] in
theorem setVersions_keeps (hc : ∀ key, P key (c.entries key)) (h : P key versions) (k) :
    P k ((c.setVersions key versions).entries k) := by
  simp only [setVersions]
  split_ifs with hk
  · exact hk ▸ h
  · exact hc k

theorem merge_keeps (hassign : ∀ x ∈ modifiedEntries, ∀ l, P x.1 l → P x.1 (assignVersion search env l x.2).1)
    (hc : ∀ key, P key (c.entries key)) : ∀ key, P key ((c.merge search env modifiedEntries).entries key) := by
  induction modifiedEntries generalizing c with
  | nil => exact hc
  | cons x rest ih =>
    refine ih (fun y hy => hassign y (mem_cons_of_mem _ hy)) (setVersions_keeps hc ?_)
    exact hassign x (mem_cons_self ..) _ (hc x.1)

omit [DecidableEq Env] in
theorem evict_keeps (hunload : ∀ key removeEntry l, P key l → P key (unloadVersion removeEntry l))
    (hc : ∀ key, P key (c.entries key)) : ∀ key, P key ((c.evict victims).entries key) := by
  induction victims generalizing c with
  | nil => exact hc
  | cons x rest ih => exact ih (setVersions_keeps hc (hunload _ _ _ (hc x.1)))

/-- An operation keeps of the versions of every program what the assignments that it makes
keep, what unloading keeps and what holds of fewer versions. -/
theorem run_keeps {op : Operation Env Exe} (hsublist : ∀ {key l l'}, l'.Sublist l → P key l → P key l')
    (hunload : ∀ key removeEntry l, P key l → P key (unloadVersion removeEntry l))
    (hassign : ∀ env key entry, op.Assigns env key entry → ∀ l, P key l → P key (assignVersion search env l entry).1)
    (hc : ∀ key, P key (c.entries key)) : ∀ key, P key ((op.run search c).entries key) := by
  cases op with
  | assignProgram env key entry =>
    exact setVersions_keeps hc (hassign env key entry ⟨rfl, rfl, rfl⟩ _ (hc key))
  | finishCooperativeLoadingTask env key entry =>
    let c' := { c with loadingEntries := fun k => if k = key then none else c.loadingEntries k }
    exact setVersions_keeps hc (hassign env key entry ⟨rfl, rfl, rfl⟩ _ (hc key))
  | merge env modifiedEntries => exact merge_keeps (fun x hx => hassign env x.1 x.2 ⟨rfl, hx⟩) hc
  | prune => exact fun key => hsublist (prune_sublist key) (hc key)
  | pruneByDeploymentSlot => exact fun key => hsublist filter_sublist (hc key)
  | removePrograms => exact fun key => hsublist (removePrograms_sublist key) (hc key)
  | evict => exact evict_keeps hunload hc

theorem Sorted.run (hsearch : Searches search) (hc : c.Sorted) (op : Operation Env Exe) : (op.run search c).Sorted := by
  refine run_keeps
    (fun hsub hl => hl.sublist hsub) (fun _ removeEntry l hl => ?_)
    (fun _ _ _ _ _ hl => sorted_assignVersion hsearch hl) hc
  rw [← pairwise_map, map_unloadVersion place_toUnloaded]
  exact pairwise_map.mpr hl

theorem Built.sorted (hsearch : Searches search) (hc : c.Built search) : c.Sorted := by
  induction hc with
  | new rootSlot => exact fun _ => List.Pairwise.nil
  | step op _ ih => exact ih.run hsearch op

end Keeps

/-! ## Reachable caches -/

section Reachable

/-- What the operations keep of the cache. -/
structure Ordered (t : ForkTree) (c : ProgramCache Env Exe) : Prop where
  sorted : c.Sorted
  rooted : ∀ key, ∀ e ∈ c.entries key, Operation.Rooted t c.latestRootSlot e

theorem ordered_new (rootSlot : Slot) : (new rootSlot : ProgramCache Env Exe).Ordered t :=
  ⟨fun _ => List.Pairwise.nil, fun _ _ he => by cases he⟩

theorem mem_setVersions
    (h : e ∈ (c.setVersions key versions).entries k) : (k = key ∧ e ∈ versions) ∨ e ∈ c.entries k := by
  simp only [setVersions] at h
  split_ifs at h with hk
  · exact .inl ⟨hk, h⟩
  · exact .inr h

variable [DecidableEq Env]
  {search : (ProgramCacheEntry Env Exe → Ordering) → List (ProgramCacheEntry Env Exe) → Search.Result}

variable (hsearch : Searches search)

include hsearch

variable (hc : c.Ordered t)

include hc

theorem Ordered.assignProgram
    (hentry : Operation.Rooted t c.latestRootSlot entry) : (c.assignProgram search env key entry).1.Ordered t := by
  refine ⟨hc.sorted.run hsearch (.assignProgram env key entry), fun k e he => ?_⟩
  rcases mem_setVersions he with ⟨rfl, he⟩ | he
  · rcases mem_assignVersion he with rfl | he
    · exact hentry
    · exact hc.rooted k e he
  · exact hc.rooted k e he

theorem Ordered.merge (hentries : ∀ x ∈ modifiedEntries, Operation.Rooted t c.latestRootSlot x.2) :
    (c.merge search env modifiedEntries).Ordered t := by
  induction modifiedEntries generalizing c with
  | nil => exact hc
  | cons x rest ih =>
    refine ih (hc.assignProgram hsearch (hentries x (mem_cons_self ..))) fun y hy => ?_
    exact hentries y (mem_cons_of_mem _ hy)

theorem Ordered.prune (hgraph : ∀ g, graph = some g → g.Sound t) (hroot : t.OnChain c.latestRootSlot newRootSlot) :
    (c.prune graph newRootSlot upcoming).Ordered t := by
  refine ⟨hc.sorted.run hsearch (.prune graph newRootSlot upcoming), fun key e he hle => ?_⟩
  have hmem := (prune_sublist key).subset he
  cases graph with
  | none => exact hc.rooted key e hmem hle
  | some graph =>
    have hseems := seemsRooted_of_mem_pruneScan graph c.latestRootSlot newRootSlot upcoming
      (mem_reverse.mp he)
    rcases hseems with hge | hanc | hold
    · obtain heq : e.deploymentSlot = newRootSlot := hle.antisymm hge
      exact heq ▸ .refl _
    · exact (hgraph graph rfl).ancestor hanc
    · exact (hc.rooted key e hmem hold).trans hroot

theorem Ordered.unloadProgramEntry : (c.unloadProgramEntry key removeEntry).Ordered t := by
  refine ⟨hc.sorted.run hsearch (.evict [(key, removeEntry)]), fun k e he => ?_⟩
  rcases mem_setVersions he with ⟨rfl, he⟩ | he
  · have hplace := mem_map_of_mem (f := place) he
    rw [map_unloadVersion place_toUnloaded] at hplace
    obtain ⟨e', he', heq⟩ := mem_map.mp hplace
    have hrooted := hc.rooted k e' he'
    rw [Operation.Rooted, (slots_eq_of_place_eq heq).2] at hrooted
    exact hrooted
  · exact hc.rooted k e he

theorem Ordered.evict : (c.evict victims).Ordered t := by
  induction victims generalizing c with
  | nil => exact hc
  | cons x rest ih => exact ih (hc.unloadProgramEntry hsearch)

theorem Ordered.run {op : Operation Env Exe} (hop : op.Admitted t c) : (op.run search c).Ordered t := by
  cases op with
  | assignProgram => exact hc.assignProgram hsearch hop
  | finishCooperativeLoadingTask env key entry =>
    have hc' : Ordered t { c with loadingEntries := fun k => if k = key then none else c.loadingEntries k } :=
      ⟨hc.sorted, hc.rooted⟩
    exact hc'.assignProgram hsearch hop
  | merge => exact hc.merge hsearch hop
  | prune => exact hc.prune hsearch hop.1 hop.2
  | pruneByDeploymentSlot slot =>
    exact ⟨hc.sorted.run hsearch (.pruneByDeploymentSlot slot), fun key e he =>
      hc.rooted key e (mem_of_mem_filter he)⟩
  | removePrograms keys =>
    exact ⟨hc.sorted.run hsearch (.removePrograms keys), fun key e he =>
      hc.rooted key e ((removePrograms_sublist key).subset he)⟩
  | evict => exact hc.evict hsearch

omit hc

theorem Reachable.ordered (hc : c.Reachable search t) : c.Ordered t := by
  induction hc with
  | new rootSlot => exact ordered_new rootSlot
  | step op _ hop ih => exact ih.run hsearch hop

end Reachable

/-! ## The scan -/

section Scan

/-- The scan stops at the entry, or goes on with its deployment slot only. -/
def sees (graph : ForkGraph) (root slot : Slot) (e : ProgramCacheEntry Env Exe) : Bool :=
  entryInSameBranch graph root slot e &&
    (decide (e.effectiveSlot ≤ slot) || e.isImplicitDelayVisibilityTombstone slot)

theorem Ordered.sees_iff (hc : c.Ordered t) (hgraph : graph.Consistent t c.latestRootSlot slot)
    (hslot : t.OnChain c.latestRootSlot slot)
    (he : e ∈ c.entries key) : sees graph c.latestRootSlot slot e = true ↔ e.Visible t slot := by
  have hbranch : entryInSameBranch graph c.latestRootSlot slot e = true ↔ t.OnChain e.deploymentSlot slot := by
    simp only [entryInSameBranch, Bool.or_eq_true, decide_eq_true_eq]
    constructor
    · rintro (hle | heq | hanc)
      · exact (hc.rooted key e he hle).trans hslot
      · exact hgraph.equal heq ▸ .refl _
      · exact hgraph.ancestor hanc
    · intro hchain
      rcases le_total e.deploymentSlot c.latestRootSlot with hle | hge
      · exact .inl hle
      · exact .inr (hgraph.complete hge hchain)
  simp [sees, Visible, hbranch]

variable [DecidableEq Env] {l post : List (ProgramCacheEntry Env Exe)}

/-- Entries that are not seen are passed over. -/
theorem extractScan_append (hpre : ∀ e ∈ pre, sees graph root slot e = false) :
    extractScan graph root slot env criteria none (pre ++ l) = extractScan graph root slot env criteria none l := by
  induction pre with
  | nil => rfl
  | cons e pre ih =>
    have he := hpre e (mem_cons_self ..)
    rw [cons_append, extractScan, ih fun e' he' => hpre e' (mem_cons_of_mem _ he')]
    simp only [sees, Bool.and_eq_false_iff, Bool.or_eq_false_iff, decide_eq_false_iff_not] at he
    rcases he with hbranch | ⟨heff, hdelay⟩
    · simp [hbranch]
    · simp [heff, hdelay]

/-- Once the deployment slot is fixed, the first entry of that slot with a matching
environment decides. -/
theorem extractScan_some
    (hl : ∀ e ∈ l, e.deploymentSlot = d → entryInSameBranch graph root slot e = true ∧ e.effectiveSlot ≤ slot) :
    extractScan graph root slot env criteria (some d) l =
      (l.find? fun e => decide (e.deploymentSlot = d) && decide (e.effectiveSlot ≤ slot) &&
        matchesEnvironment e env).filter (usable criteria) := by
  induction l with
  | nil => rfl
  | cons e l ih =>
    have ih := ih fun e' he' => hl e' (mem_cons_of_mem _ he')
    rw [extractScan, find?_cons]
    by_cases hd : e.deploymentSlot = d
    · obtain ⟨hbranch, heff⟩ := hl e (mem_cons_self ..) hd
      cases henv : matchesEnvironment e env with
      | false => simp [heff, ih]
      | true =>
        simp only [hd, heff]
        cases hcrit : matchesCriteria e criteria <;> cases hunl : e.isUnloaded <;>
          simp [hbranch, Option.filter_some, usable, hcrit, hunl]
    · simp [hd, Ne.symm hd, ih]

/-- An effective entry fixes the deployment slot. -/
theorem extractScan_effective (hbranch : entryInSameBranch graph root slot n = true)
    (heff : n.effectiveSlot ≤ slot) : extractScan graph root slot env criteria none (n :: post) =
      extractScan graph root slot env criteria (some n.deploymentSlot) (n :: post) := by
  simp [extractScan, hbranch, heff]

/-- What the scan finds, by the first entry it sees. -/
theorem lookup_of_find? (env : Env) (criteria) (hsorted : c.Sorted)
    (hfirst : (c.entries key).reverse.find? (sees graph c.latestRootSlot slot) = some n) :
    (n.isImplicitDelayVisibilityTombstone slot = true → c.lookup graph slot env key criteria =
        some (.newTombstone n.deploymentSlot n.accountOwner .DelayVisibility)) ∧ (n.effectiveSlot ≤ slot →
      c.lookup graph slot env key criteria = (c.candidate key slot env n.deploymentSlot).filter (usable criteria)) := by
  obtain ⟨hn, pre, post, hl, hpre⟩ := find?_eq_some_iff_append.mp hfirst
  have hpre (e) (he : e ∈ pre) : sees graph c.latestRootSlot slot e = false := by simpa using hpre e he
  have hbranch := (Bool.and_eq_true_iff.mp hn).1
  rw [lookup, candidate, hl, extractScan_append hpre]
  refine ⟨fun hdelay => ?_, fun heff => ?_⟩
  · rw [extractScan, if_neg (by simp), if_pos hbranch, if_neg (lt_effectiveSlot_of_delayed hdelay).not_ge, if_pos hdelay]
  have hsame {e : ProgramCacheEntry Env Exe} (hd : e.deploymentSlot = n.deploymentSlot) :
      entryInSameBranch graph c.latestRootSlot slot e = true := by
    rwa [entryInSameBranch, hd]
  have hpost : ∀ e ∈ n :: post, e.deploymentSlot = n.deploymentSlot →
      entryInSameBranch graph c.latestRootSlot slot e = true ∧ e.effectiveSlot ≤ slot := by
    intro e he hd
    refine ⟨hsame hd, ?_⟩
    rcases mem_cons.mp he with rfl | he
    · exact heff
    · have hsorted := hsorted key
      rw [← pairwise_reverse, hl, pairwise_append, pairwise_cons] at hsorted
      exact (effectiveSlot_le_of_place_le (hsorted.2.1.1 e he)).trans heff
  rw [extractScan_effective hbranch heff, extractScan_some hpost, find?_append]
  suffices hnone : pre.find? (fun e => decide (e.deploymentSlot = n.deploymentSlot) &&
      decide (e.effectiveSlot ≤ slot) && matchesEnvironment e env) = none by
    rw [hnone, Option.none_or]
  -- An entry that is not seen is no candidate: it would be on the same branch as `n`.
  refine find?_eq_none.mpr fun e he hcand => ?_
  simp only [Bool.and_eq_true, decide_eq_true_eq] at hcand
  have hsees := hpre e he
  rw [sees, hsame hcand.1.1, decide_eq_true hcand.1.2] at hsees
  cases hsees

theorem lookup_of_find?_none (env : Env) (criteria)
    (hfirst : (c.entries key).reverse.find? (sees graph c.latestRootSlot slot) = none) :
    c.lookup graph slot env key criteria = none := by
  rw [lookup, ← append_nil (c.entries key).reverse,
    extractScan_append fun e he => by simpa using find?_eq_none.mp hfirst e he]
  rfl

omit [DecidableEq Env] in
/-- The first entry that the scan sees is the greatest. -/
theorem place_le_of_find? (hsorted : c.Sorted)
    (hfirst : (c.entries key).reverse.find? (sees graph c.latestRootSlot slot) = some n) (hm : m ∈ c.entries key)
    (hsees : sees graph c.latestRootSlot slot m = true) : m.place ≤ n.place := by
  obtain ⟨-, pre, post, hl, hpre⟩ := find?_eq_some_iff_append.mp hfirst
  have hsorted := hsorted key
  rw [← pairwise_reverse, hl, pairwise_append, pairwise_cons] at hsorted
  rw [← mem_reverse, hl, mem_append, mem_cons] at hm
  rcases hm with hm | rfl | hm
  · exact absurd hsees (by simpa using hpre m hm)
  · exact le_rfl
  · exact hsorted.2.1.1 m hm

/-- What the scan finds: nothing if it sees no entry, and otherwise what the greatest entry
that it sees decides. -/
theorem lookup_cases (graph) (slot : Slot) (env : Env) (criteria) (key)
    (hsorted : c.Sorted) : (c.lookup graph slot env key criteria = none ∧
      ∀ e ∈ c.entries key, sees graph c.latestRootSlot slot e = false) ∨
    ∃ n ∈ c.entries key, sees graph c.latestRootSlot slot n = true ∧
      (∀ m ∈ c.entries key, sees graph c.latestRootSlot slot m = true → m.place ≤ n.place) ∧
      (n.isImplicitDelayVisibilityTombstone slot = true → c.lookup graph slot env key criteria =
        some (.newTombstone n.deploymentSlot n.accountOwner .DelayVisibility)) ∧
      (n.effectiveSlot ≤ slot → c.lookup graph slot env key criteria =
        (c.candidate key slot env n.deploymentSlot).filter (usable criteria)) := by
  cases hfirst : (c.entries key).reverse.find? (sees graph c.latestRootSlot slot) with
  | none =>
    refine .inl ⟨lookup_of_find?_none env criteria hfirst, fun e he => ?_⟩
    simpa using find?_eq_none.mp hfirst e (mem_reverse.mpr he)
  | some n =>
    exact .inr ⟨n, mem_reverse.mp (mem_of_find?_eq_some hfirst), find?_some hfirst,
      fun m hm => place_le_of_find? hsorted hfirst hm, lookup_of_find? env criteria hsorted hfirst⟩

/-- What is found through a candidate is of the candidate's deployment slot. -/
theorem deploymentSlot_of_candidate
    (h : (c.candidate key slot env d).filter (usable criteria) = some e) : e.deploymentSlot = d := by
  have hcand := find?_some (Option.eq_some_of_filter_eq_some h)
  simp only [Bool.and_eq_true, decide_eq_true_eq] at hcand
  exact hcand.1.1

theorem Ordered.forkCorrect_lookup (hc : c.Ordered t) (hgraph : graph.Consistent t c.latestRootSlot slot)
    (hslot : t.OnChain c.latestRootSlot slot) (key) :
    c.ForkCorrect t slot env key criteria (c.lookup graph slot env key criteria) := by
  have hiff {e : ProgramCacheEntry Env Exe} (he : e ∈ c.entries key) :=
    hc.sees_iff hgraph hslot he
  obtain ⟨hlookup, hnone⟩ | ⟨n, hmem, hn, hgreatest, hdelayed, heffective⟩ :=
    lookup_cases graph slot env criteria key hc.sorted
  · have hnot {n : ProgramCacheEntry Env Exe} (hn : c.Newest t key slot n) : False := by
      have hsees := (hiff hn.mem).mpr hn.visible
      rw [hnone n hn.mem] at hsees
      cases hsees
    rw [hlookup]
    refine ⟨fun e he => ?_, fun _ => rfl, fun n hn => (hnot hn).elim, fun n hn => (hnot hn).elim⟩
    cases he
  · have hvis := (hiff hmem).mp hn
    have hplace {m : ProgramCacheEntry Env Exe} (hm : c.Newest t key slot m) :=
      slots_eq_of_place_eq ((hgreatest m hm.mem ((hiff hm.mem).mpr hm.visible)).antisymm (hm.greatest n hmem hvis))
    refine ⟨fun e he => ?_, fun habs => (habs n hmem hvis).elim, fun m hm hdelay => ?_, fun m hm hdelay => ?_⟩
    · rcases hvis.2 with heff | hdelay
      · rw [heffective heff] at he
        exact deploymentSlot_of_candidate he ▸ hvis.1
      · obtain rfl : newTombstone n.deploymentSlot n.accountOwner .DelayVisibility = e :=
          Option.some.inj ((hdelayed hdelay).symm.trans he)
        exact hvis.1
    · rw [hm.visible.delayed_iff, (hplace hm).1, ← hvis.delayed_iff] at hdelay
      exact ⟨n.accountOwner, (hplace hm).2 ▸ hdelayed hdelay⟩
    · rw [Bool.eq_false_iff, ne_eq, hm.visible.delayed_iff, (hplace hm).1, not_lt] at hdelay
      exact (hplace hm).2 ▸ heffective hdelay

end Scan

/-! ## Extraction -/

section Extract

variable [DecidableEq Env] {graph : ForkGraph} {env : Env}

/-- What `extract` finds for an item of `search_for`. -/
def found (graph : ForkGraph) (slot : Slot) (env : Env) (c : ProgramCache Env Exe)
    (item : Pubkey × ProgramCacheMatchCriteria × Slot) : Option (ProgramCacheEntry Env Exe) :=
  c.lookup graph slot env item.1 item.2.1

theorem extractItem_spec (graph) (env : Env) (c : ProgramCache Env Exe)
    (item) (x) :
    (c.extractItem graph env x item).batch.slot = x.batch.slot ∧ (c.extractItem graph env x item).missing =
      x.missing ++ (if (c.found graph x.batch.slot env item).isNone then [item] else []) ∧
    ∀ key, (c.extractItem graph env x item).batch.entries key =
      if item.1 = key then (c.found graph x.batch.slot env item).or (x.batch.entries key)
      else x.batch.entries key := by
  rw [extractItem, found]
  cases c.lookup graph x.batch.slot env item.1 item.2.1 with
  | some entry => exact ⟨rfl, by simp, fun key => by simp [eq_comm]⟩
  | none =>
    dsimp only
    split <;> exact ⟨rfl, rfl, fun key => by simp⟩

theorem foldl_extractItem (graph) (env : Env) (c : ProgramCache Env Exe)
    (searchFor : List (Pubkey × ProgramCacheMatchCriteria × Slot)) (x) :
    (searchFor.foldl (c.extractItem graph env) x).batch.slot = x.batch.slot ∧
    (searchFor.foldl (c.extractItem graph env) x).missing =
      x.missing ++ searchFor.filter (fun item => (c.found graph x.batch.slot env item).isNone) ∧
    ∀ key, (searchFor.foldl (c.extractItem graph env) x).batch.entries key =
      ((searchFor.filter fun item => item.1 = key).filterMap (c.found graph x.batch.slot env)).getLast?.or
        (x.batch.entries key) := by
  induction searchFor generalizing x with
  | nil => exact ⟨rfl, by simp, fun key => by simp⟩
  | cons item rest ih =>
    obtain ⟨hslot, hmissing, hentries⟩ := extractItem_spec graph env c item x
    obtain ⟨ihslot, ihmissing, ihentries⟩ := ih (c.extractItem graph env x item)
    rw [hslot] at ihmissing ihentries
    refine ⟨ihslot.trans hslot, ?_, fun key => ?_⟩
    · rw [foldl_cons, ihmissing, hmissing, append_assoc, filter_cons]
      split_ifs <;> rfl
    · rw [foldl_cons, ihentries, hentries]
      by_cases hkey : item.1 = key
      · rw [if_pos hkey, filter_cons_of_pos (by simpa using hkey)]
        cases hfound : c.found graph x.batch.slot env item with
        | none => rw [filterMap_cons_none hfound, Option.none_or]
        | some e =>
          rw [filterMap_cons_some hfound, getLast?_cons]
          cases getLast? _ <;> rfl
      · rw [if_neg hkey, filter_cons_of_neg (by simpa using hkey)]

/-- A batch extracts from every reachable cache what its own fork decides: what is found
for an item of `search_for` is fork-correct and put into the view of the batch; the items
nothing is found for stay. -/
theorem extract_forkCorrect (hsearch : Searches search) (hc : c.Reachable search t)
    (batch : ProgramCacheForTxBatch Env Exe) (hgraph : graph.Consistent t c.latestRootSlot batch.slot)
    (hslot : t.OnChain c.latestRootSlot batch.slot)
    (searchFor : List (Pubkey × ProgramCacheMatchCriteria × Slot)) :
    (∀ item ∈ searchFor, c.ForkCorrect t batch.slot env item.1 item.2.1 (c.found graph batch.slot env item)) ∧
    (c.extract graph searchFor batch env).missing =
      searchFor.filter (fun item => (c.found graph batch.slot env item).isNone) ∧
    ∀ key, (c.extract graph searchFor batch env).batch.entries key =
      ((searchFor.filter fun item => item.1 = key).filterMap (c.found graph batch.slot env)).getLast?.or
        (batch.entries key) := by
  obtain ⟨-, hmissing, hentries⟩ := foldl_extractItem graph env c searchFor
    { missing := [], batch := batch, loadingEntries := c.loadingEntries, cooperativeLoadingTask := none }
  exact ⟨fun item _ => (hc.ordered hsearch).forkCorrect_lookup hgraph hslot item.1, hmissing, hentries⟩

end Extract

/-! ## A ledger with two forks -/

namespace TwoForks

/-- Slots 1 and 2 build on slot 0, slot 3 builds on slot 1. -/
def tree : ForkTree where
  parent
    | 1 | 2 => some 0
    | 3 => some 1
    | _ => none
  parent_lt := by
    intro slot ancestor h
    split at h <;> cases h <;> decide

def graph : ForkGraph where
  relationship a b :=
    if a = b then .Equal
    else if (a, b) ∈ [(0, 1), (0, 2), (0, 3), (1, 3)] then .Ancestor
    else if (b, a) ∈ [(0, 1), (0, 2), (0, 3), (1, 3)] then .Descendant
    else .Unrelated

theorem onChain_three (h : tree.OnChain a 3) : a = 3 ∨ a = 1 ∨ a = 0 := by
  rcases h with _ | ⟨hparent, h⟩
  · exact .inl rfl
  · obtain rfl : 1 = _ := by simpa [tree] using hparent
    rcases h with _ | ⟨hparent, h⟩
    · exact .inr (.inl rfl)
    · obtain rfl : 0 = _ := by simpa [tree] using hparent
      rcases h with _ | ⟨hparent, _⟩
      · exact .inr (.inr rfl)
      · simp [tree] at hparent

theorem consistent_graph : graph.Consistent tree 0 3 where
  equal {a b} h := by
    simp only [graph] at h
    split_ifs at h with heq
    exact heq
  ancestor {a b} h := by
    have h01 : tree.OnChain 0 1 := .step rfl (.refl 0)
    have h13 : tree.OnChain 1 3 := .step rfl (.refl 1)
    simp only [graph] at h
    split_ifs at h with heq hmem
    simp only [mem_cons, not_mem_nil, or_false] at hmem
    rcases hmem with ⟨rfl, rfl⟩ | ⟨rfl, rfl⟩ | ⟨rfl, rfl⟩ | ⟨rfl, rfl⟩
    · exact h01
    · exact .step rfl (.refl 0)
    · exact h01.trans h13
    · exact h13
  complete {a} _ h := by
    rcases onChain_three h with rfl | rfl | rfl <;> decide

/-- A program deployed in `slot`, visible from the next slot on. -/
def deployed (slot : Slot) : ProgramCacheEntry Unit Unit where
  program := .Loaded () ()
  accountOwner := .LoaderV3
  accountSize := 8
  deploymentSlot := slot
  effectiveSlot := slot + 1

def key : Pubkey := Vector.replicate 32 7

/-- The program is deployed on both forks. -/
def cache : ProgramCache Unit Unit :=
  (Operation.assignProgram () key (deployed 2)).run binarySearch
    ((Operation.assignProgram () key (deployed 1)).run binarySearch (new 0))

theorem reachable_cache : cache.Reachable binarySearch tree := by
  refine .step _ (.step _ (.new 0) ?_) ?_
  · intro h
    exact absurd h (by decide)
  · intro h
    exact absurd h (by decide)

/-- The batch on the fork of slot 1 gets the version of slot 1, not the later one. -/
theorem extract_forkCorrect_twoForks :
    (cache.extract graph [(key, .NoCriteria, 3)] { entries := fun _ => none, slot := 3 } ()).batch.entries key =
      some (deployed 1) := by
  rw [(extract_forkCorrect searches_binarySearch reachable_cache { entries := fun _ => none, slot := 3 }
    consistent_graph (.step (p := 1) rfl (.step (p := 0) rfl (.refl 0))) [(key, .NoCriteria, 3)]).2.2 key]
  decide

end TwoForks

end ProgramCache

end Svm
