import Svm.Proof.ProgramCache

/-!
# The versions of a program in the cache

An entry that is assigned takes its place behind the versions that do not compare
greater (`assignVersion_cases`). Consequences:

* it leaves the versions of other deployment slots as they are (`others_assignVersion`);
* as long as the versions at each place are assigned for one environment, no two of a
  program have the same deployment slot and environment (`BuiltFor.distinct`);
* an entry that is the newest on the branch of a batch is what the batch finds from then
  on (`Findable.lookup`), so the batch loads a program at most once
  (`nodup_replenishProgramCache`).
-/

namespace Svm

variable {Env Exe : Type}

namespace ProgramCache

open ProgramCacheEntry Search List

variable [DecidableEq Env] {c : ProgramCache Env Exe} {env : Env} {entry e : ProgramCacheEntry Env Exe}
  {versions : List (ProgramCacheEntry Env Exe)}

/-! ## Assigning a version -/

/-- The assignment is refused for the last version that compares equal, or the entry comes
behind the versions that do not compare greater, in the place of the last of them if that
compares equal. -/
theorem assignVersion_cases {κ : Type} [LinearOrder κ] {rank : ProgramCacheEntry Env Exe → κ}
    (hsorted : versions.Pairwise fun e e' => rank e ≤ rank e')
    (hgt : ∀ e, comparePlace env entry e = .gt ↔ rank entry < rank e) :
    (assignVersion binarySearch env versions entry = (versions, true) ∧
      ∃ pre e post, versions = pre ++ e :: post ∧ comparePlace env entry e = .eq ∧ mayReplace e entry = false ∧
        ∀ e ∈ post, rank entry < rank e) ∨
    ∃ pre mid post, versions = pre ++ mid ++ post ∧
      assignVersion binarySearch env versions entry = ((pre ++ entry :: post).filter (staysBeside entry), false) ∧
      ((mid = [] ∧ ∀ e ∈ pre.getLast?, comparePlace env entry e = .lt) ∨
        ∃ e, mid = [e] ∧ comparePlace env entry e = .eq) ∧ ∀ e ∈ post, rank entry < rank e := by
  rcases binarySearch_sorted hsorted hgt with ⟨pre, e, post, rfl, hs, heq, hpost⟩ | ⟨pre, post, rfl, hs, hlast, hpost⟩
  · by_cases hmay : mayReplace e entry = true
    · refine .inr ⟨pre, [e], post, by simp, ?_, .inr ⟨e, rfl, heq⟩, hpost⟩
      simp [assignVersion, hs, hmay]
    · refine .inl ⟨?_, pre, e, post, rfl, heq, by simpa using hmay, hpost⟩
      simp [assignVersion, hs, hmay]
  · refine .inr ⟨pre, [], post, by simp, ?_, .inl ⟨rfl, hlast⟩, hpost⟩
    simp [assignVersion, hs]

theorem staysBeside_self (entry : ProgramCacheEntry Env Exe) : staysBeside entry entry = true := by
  simp [staysBeside, sameAs]

/-! ## What an assignment leaves alone -/

section Order

theorem others_stay (l) :
    others entry (l.filter (staysBeside entry)) = others entry l := by
  rw [others, filter_filter]
  refine filter_congr fun e _ => ?_
  by_cases hdep : e.deploymentSlot = entry.deploymentSlot <;> simp [staysBeside, hdep]

theorem others_assignVersion (hsearch : Searches search) :
    others entry (assignVersion search env versions entry).1 = others entry versions := by
  have hfound := hsearch (comparePlace env entry) versions 0 versions.length (Nat.zero_le _) (Nat.le_refl _)
    (fun _ _ _ hi => by omega) fun i x hx hi => by
      have := (List.getElem?_eq_some_iff.mp hx).1
      omega
  rw [assignVersion]
  cases hs : search (comparePlace env entry) versions with
  | ok index =>
    rw [hs] at hfound
    obtain ⟨-, -, e, he, heq⟩ := hfound
    obtain ⟨hi, rfl⟩ := List.getElem?_eq_some_iff.mp he
    -- the version that is replaced has the place of the entry
    have hdep := (slots_eq_of_place_eq (place_eq_of_comparePlace heq)).2
    dsimp only
    split_ifs
    · rw [others_stay, set_eq_take_append_cons_drop, if_pos hi]
      conv_rhs => rw [← take_append_drop index versions, ← getElem_cons_drop hi]
      simp only [others, filter_append, filter_cons, hdep, ne_eq, not_true_eq_false, decide_false]
      rfl
    · rfl
  | error index =>
    rw [others_stay]
    conv_rhs => rw [← take_append_drop index versions]
    simp only [others, filter_append, filter_cons, ne_eq, not_true_eq_false, decide_false]
    rfl

/-- The versions of every program stay in the order of their effective and deployment
slots, and an assignment leaves the versions of other deployment slots as they are. -/
theorem cache_lists_ordered (hsearch : Searches search) (hc : c.Built search) :
    (∀ key, (c.entries key).Pairwise fun e e' =>
      e.effectiveSlot < e'.effectiveSlot ∨
        e.effectiveSlot = e'.effectiveSlot ∧ e.deploymentSlot ≤ e'.deploymentSlot) ∧
    ∀ env key entry k,
      others entry ((c.assignProgram search env key entry).1.entries k) = others entry (c.entries k) := by
  refine ⟨fun key => ?_, fun env key entry k => ?_⟩
  · exact (hc.sorted hsearch key).imp fun h => Prod.Lex.toLex_le_toLex.mp h
  · simp only [assignProgram, setVersions]
    split_ifs with hk
    · rw [hk, others_assignVersion hsearch]
    · rfl

end Order

/-! ## One version for a deployment slot and environment -/

/-- What unloading leaves of an entry. -/
def version (e : ProgramCacheEntry Env Exe) : (Slot ×ₗ Slot) × Option Env := (e.place, e.program.getEnvironment)

/-- The order of the versions for the environments `env`: those of one place that match its
environment come last. -/
def rank (env : Slot ×ₗ Slot → Env) (v : (Slot ×ₗ Slot) × Option Env) : (Slot ×ₗ Slot) ×ₗ Bool :=
  toLex (v.1, isCurrentEnv (env v.1) v.2)

theorem comparePlace_of_place_eq (h : e.place = entry.place) : comparePlace env entry e =
    compare (isCurrentEnv env e.program.getEnvironment) (isCurrentEnv env entry.program.getEnvironment) := by
  obtain ⟨heff, hdep⟩ := slots_eq_of_place_eq h
  simp [comparePlace, heff, hdep]

theorem comparePlace_eq_cmp (env : Slot ×ₗ Slot → Env) (entry e : ProgramCacheEntry Env Exe) :
    comparePlace (env entry.place) entry e = cmp (rank env (version e)) (rank env (version entry)) := by
  rcases lt_trichotomy e.place entry.place with hlt | heq | hgt
  · rw [comparePlace_of_lt hlt, (cmp_eq_lt_iff _ _).mpr (Prod.Lex.toLex_lt_toLex.mpr (.inl hlt))]
  · rw [comparePlace_of_place_eq heq]
    dsimp only [rank, version, cmp, cmpUsing]
    rw [heq]
    cases isCurrentEnv (env entry.place) e.program.getEnvironment <;>
      cases isCurrentEnv (env entry.place) entry.program.getEnvironment <;>
      simp [Prod.Lex.toLex_lt_toLex] <;> decide
  · rw [comparePlace_of_gt hgt, (cmp_eq_gt_iff _ _).mpr (Prod.Lex.toLex_lt_toLex.mpr (.inl hgt))]

/-- The versions are in the order for `env`, and none is a duplicate of another. -/
def Distinct (env : Slot ×ₗ Slot → Env) (versions : List (ProgramCacheEntry Env Exe)) : Prop :=
  (versions.map version).Pairwise fun v v' =>
    rank env v < rank env v' ∧ ¬ ((ofLex v.1).2 = (ofLex v'.1).2 ∧ v.2 = v'.2)

/-- A version of the entry's deployment slot that stays beside it has its place, if both
match an environment. -/
theorem place_eq_of_staysBeside (h : staysBeside entry e = true) (hdep : e.deploymentSlot = entry.deploymentSlot)
    (he : matchesEnvironment e env = true) (hentry : matchesEnvironment entry env = true) : e.place = entry.place := by
  have heff : e.effectiveSlot = entry.effectiveSlot := by
    rw [matchesEnvironment] at he hentry
    rw [staysBeside] at h
    cases henv : e.program.getEnvironment <;> cases henv' : entry.program.getEnvironment <;>
      simp_all [sameAs]
  simp [place, heff, hdep]

/-- Of the versions that stay beside the entry, only one of its own place can be a duplicate
of it. -/
theorem version_eq_of_staysBeside (h : staysBeside entry e = true) (hdep : e.deploymentSlot = entry.deploymentSlot)
    (henv : e.program.getEnvironment = entry.program.getEnvironment) : version e = version entry := by
  have hsame : e.effectiveSlot = entry.effectiveSlot := by
    rw [staysBeside, henv] at h
    cases hentry : entry.program.getEnvironment <;> simp [hentry, hdep, sameAs] at h <;> exact h.1
  simp [version, place, hdep, henv, hsame]

theorem distinct_assignVersion {env : Slot ×ₗ Slot → Env} (hl : Distinct env versions) :
    Distinct env (assignVersion binarySearch (env entry.place) versions entry).1 := by
  have hsorted : versions.Pairwise fun e e' => rank env (version e) ≤ rank env (version e') :=
    (pairwise_map.mp hl).imp fun h => h.1.le
  have hgt (e : ProgramCacheEntry Env Exe) :
      comparePlace (env entry.place) entry e = .gt ↔ rank env (version entry) < rank env (version e) := by
    rw [comparePlace_eq_cmp, cmp_eq_gt_iff]
  rcases assignVersion_cases hsorted hgt with ⟨hsame, -⟩ | ⟨pre, mid, post, rfl, hassign, hmid, hpost⟩
  · rwa [hsame]
  rw [hassign]
  rw [Distinct, pairwise_map, append_assoc, pairwise_append, pairwise_append] at hl
  obtain ⟨hpre, ⟨-, hposts, -⟩, hacross⟩ := hl
  -- Everything before the entry compares less: up to the last version before it, or up to the one it replaces.
  have hbefore : ∀ e ∈ pre, rank env (version e) < rank env (version entry) := by
    intro e he
    rcases hmid with ⟨-, hlast⟩ | ⟨m, rfl, hm⟩
    · rcases eq_nil_or_concat pre with rfl | ⟨init, m, rfl⟩
      · cases he
      have hm := hlast m (by simp)
      rw [comparePlace_eq_cmp, cmp_eq_lt_iff] at hm
      rw [concat_eq_append, pairwise_append] at hpre
      rw [concat_eq_append, mem_append, mem_singleton] at he
      rcases he with he | rfl
      · exact (hpre.2.2 e he m (mem_singleton_self m)).1.trans hm
      · exact hm
    · rw [comparePlace_eq_cmp, cmp_eq_eq_iff] at hm
      exact hm ▸ (hacross e he m (by simp)).1
  have hapart {e : ProgramCacheEntry Env Exe} hstays
      (hrank : rank env (version e) ≠ rank env (version entry)) :
      ¬ (e.deploymentSlot = entry.deploymentSlot ∧ e.program.getEnvironment = entry.program.getEnvironment) :=
    fun h => hrank (congrArg (rank env) (version_eq_of_staysBeside hstays h.1 h.2))
  rw [Distinct, pairwise_map, filter_append, filter_cons_of_pos (staysBeside_self entry),
    pairwise_append, pairwise_cons]
  refine ⟨hpre.sublist filter_sublist, ⟨fun e he => ?_, hposts.sublist filter_sublist⟩, fun e he e' he' => ?_⟩
  · obtain ⟨hmem, hstays⟩ := mem_filter.mp he
    refine ⟨hpost e hmem, fun h => hapart hstays (hpost e hmem).ne' ⟨h.1.symm, h.2.symm⟩⟩
  · obtain ⟨hmem, hstays⟩ := mem_filter.mp he
    rcases mem_cons.mp he' with rfl | he'
    · exact ⟨hbefore e hmem, hapart hstays (hbefore e hmem).ne⟩
    · exact hacross e hmem e' (mem_append_right _ (mem_of_mem_filter he'))

omit [DecidableEq Env] in
theorem version_toUnloaded (e : ProgramCacheEntry Env Exe) : version (e.toUnloaded.getD e) = version e := by
  rw [toUnloaded]
  split <;> simp [version, place, ProgramCacheEntryType.getEnvironment, *]

theorem BuiltFor.distinct {env : Pubkey → Slot ×ₗ Slot → Env} (hc : c.BuiltFor env) (key) :
    Distinct (env key) (c.entries key) := by
  induction hc generalizing key with
  | new rootSlot => exact List.Pairwise.nil
  | step op _ hop ih =>
    refine run_keeps (fun hsub hl => hl.sublist (hsub.map _))
      (fun key removeEntry l hl => ?_) (fun env' key entry h l hl => ?_) ih key
    · rwa [Distinct, map_unloadVersion version_toUnloaded]
    · rw [hop env' key entry h]
      exact distinct_assignVersion hl

/-- As long as the versions at each place are assigned for one environment, no two of a program
have the same deployment slot and the same environment. -/
theorem no_duplicate_versions {env : Pubkey → Slot ×ₗ Slot → Env} (hc : c.BuiltFor env) : c.NoDuplicates :=
  fun key => (pairwise_map.mp (hc.distinct key)).imp fun h => h.2

namespace TwoEnvironments

def key : Pubkey := Vector.replicate 32 7

/-- The program deployed in slot 1, compiled for one of two environments. -/
def compiled (env : Bool) : ProgramCacheEntry Bool Unit where
  program := .Loaded env ()
  accountOwner := .LoaderV3
  accountSize := 8
  deploymentSlot := 1
  effectiveSlot := 2

def assign (env : Bool) : Operation Bool Unit := .assignProgram env key (compiled env)

/-- The program is assigned for each of the environments, each time compiled for it. -/
def cache (envs : List Bool) : ProgramCache Bool Unit := envs.foldl (fun c env => (assign env).run binarySearch c) (new 0)

/-- The search for the second environment leaves the version of the first one where the
search for the first one does not end any more. -/
theorem alternating_environments_duplicate :
    (cache [true, false, true]).Built binarySearch ∧ ¬ (cache [true, false, true]).NoDuplicates := by
  refine ⟨.step (assign true) (.step (assign false) (.step (assign true) (.new 0))), fun h => ?_⟩
  have hversions : (cache [true, false, true]).entries key = [compiled true, compiled false, compiled true] := by
    decide
  have h := h key
  rw [hversions, pairwise_cons] at h
  exact h.1 (compiled true) (by simp) ⟨rfl, rfl⟩

/-- The program is assigned twice for the first environment, and deployed again in slot 3
for the second one. -/
theorem no_duplicate_versions_cache :
    let redeployed := { compiled false with deploymentSlot := 3, effectiveSlot := 4 }
    let c := (Operation.assignProgram false key redeployed).run binarySearch (cache [true, true])
    c.entries key = [compiled true, redeployed] ∧ c.NoDuplicates := by
  intro redeployed c
  have hop : ∀ env' key' entry, (assign true).Assigns env' key' entry → env' = decide (entry.place = toLex (2, 1)) := by
    rintro env' key' entry ⟨rfl, -, rfl⟩
    rfl
  have hc : c.BuiltFor fun _ place => decide (place = toLex (2, 1)) := by
    refine .step _ (.step (assign true) (.step (assign true) (.new 0) hop) hop) ?_
    rintro env' key' entry ⟨rfl, -, rfl⟩
    rfl
  exact ⟨by decide, no_duplicate_versions hc⟩

/-- The program deployed in slot 3 joins three versions deployed in slot 1. -/
theorem cache_lists_ordered_redeployed :
    let redeployed := { compiled true with deploymentSlot := 3, effectiveSlot := 4 }
    others redeployed (((cache [true, false, true]).assignProgram binarySearch true key redeployed).1.entries key) =
      [compiled true, compiled false, compiled true] := by
  have hc : (cache [true, false, true]).Built binarySearch :=
    .step (assign true) (.step (assign false) (.step (assign true) (.new 0)))
  exact ((cache_lists_ordered searches_binarySearch hc).2 true key _ key).trans (by decide)

end TwoEnvironments

/-! ## Loading a program -/

section Loading

variable {searchFor : List (Pubkey × ProgramCacheMatchCriteria × Slot)}

omit [DecidableEq Env] in
theorem isCurrentEnv_getEnvironment [DecidableEq Env] (env : Env) (e : ProgramCacheEntry Env Exe) :
    isCurrentEnv env e.program.getEnvironment = matchesEnvironment e env := by
  rw [isCurrentEnv, matchesEnvironment]
  cases e.program.getEnvironment <;> rfl

/-- An entry that matches the environment is not less than any version of its place. -/
theorem comparePlace_eq_gt_iff (h : matchesEnvironment entry env = true) :
    comparePlace env entry e = .gt ↔ entry.place < e.place := by
  refine ⟨fun hgt => ?_, comparePlace_of_gt⟩
  rcases lt_trichotomy e.place entry.place with hlt | heq | hgt'
  · rw [comparePlace_of_lt hlt] at hgt
    cases hgt
  · rw [comparePlace_of_place_eq heq, isCurrentEnv_getEnvironment env entry, h] at hgt
    exfalso
    revert hgt
    cases isCurrentEnv env e.program.getEnvironment <;> decide
  · exact hgt'

theorem InUse.sorted (hc : c.InUse) : c.Sorted := by
  obtain ⟨_, hc⟩ := hc
  exact fun key => hc.sorted searches_binarySearch key

theorem Sorted.finish (hc : c.Sorted) (env : Env) (key) (entry) :
    (c.finishCooperativeLoadingTask binarySearch env key entry).1.Sorted :=
  hc.run searches_binarySearch (.finishCooperativeLoadingTask env key entry)

section Findable

variable (h : Findable graph slot env searchFor c key entry) (hc : c.Sorted)
include h hc

/-- The entry is accepted: what would be in the way may be replaced. -/
theorem Findable.entries : ∃ pre post, (c.finishCooperativeLoadingTask binarySearch env key entry).1.entries key =
      (pre ++ entry :: post).filter (staysBeside entry) ∧
    (∀ e ∈ pre ++ post, e ∈ c.entries key) ∧ ∀ e ∈ post, entry.place < e.place := by
  rcases assignVersion_cases (hc key) (fun e => comparePlace_eq_gt_iff h.environment) with
    ⟨-, pre, e, post, hversions, heq, hmay, hpost⟩ | ⟨pre, mid, post, hversions, hassign, -, hpost⟩
  · have hplace := place_eq_of_comparePlace heq
    have hmatches : matchesEnvironment e env = true := by
      rw [comparePlace_of_place_eq hplace.symm, isCurrentEnv_getEnvironment, isCurrentEnv_getEnvironment,
        h.environment] at heq
      revert heq
      cases matchesEnvironment e env <;> decide
    have hnone : post.reverse.find? (fun e => decide (e.place = entry.place) && matchesEnvironment e env) = none := by
      refine find?_eq_none.mpr fun e he hsame => ?_
      exact (hpost e (mem_reverse.mp he)).ne' (by simpa using (Bool.and_eq_true_iff.mp hsame).1)
    have hlast := h.replaces e <| by
      rw [hversions, reverse_append, reverse_cons, append_assoc, find?_append, hnone]
      simp [hplace, hmatches]
    rw [hmay] at hlast
    cases hlast
  · refine ⟨pre, post, ?_, fun e he => ?_, hpost⟩
    · simp [finishCooperativeLoadingTask, assignProgram, setVersions, hassign]
    · rw [hversions]
      exact ((sublist_append_left pre mid).append_right post).subset he

/-- The entry is the candidate of its deployment slot. -/
theorem Findable.candidate (heff : entry.effectiveSlot ≤ slot) :
    (c.finishCooperativeLoadingTask binarySearch env key entry).1.candidate key slot env entry.deploymentSlot =
      some entry := by
  obtain ⟨pre, post, hentries, hmem, hpost⟩ := h.entries hc
  rw [ProgramCache.candidate, hentries, filter_append, filter_cons_of_pos (staysBeside_self entry),
    reverse_append, reverse_cons, append_assoc, find?_append]
  have hnone : (post.filter (staysBeside entry)).reverse.find? (fun e =>
      decide (e.deploymentSlot = entry.deploymentSlot) && decide (e.effectiveSlot ≤ slot) &&
        matchesEnvironment e env) = none := by
    refine find?_eq_none.mpr fun e he hcand => ?_
    simp only [Bool.and_eq_true, decide_eq_true_eq] at hcand
    obtain ⟨he, hstays⟩ := mem_filter.mp (mem_reverse.mp he)
    -- Of the versions of its deployment slot and environment, only those of its place stay.
    exact (hpost e he).ne (place_eq_of_staysBeside hstays hcand.1.1 hcand.2 h.environment).symm
  rw [hnone]
  simp [heff, h.environment]

omit hc in
theorem Findable.sees : sees graph c.latestRootSlot slot entry = true := by
  have hprompt := h.prompt entry mem_cons_self
  have hle := h.branch.2
  rw [ProgramCache.sees, h.branch.1, Bool.true_and, Bool.or_eq_true, decide_eq_true_eq]
  by_cases heff : entry.effectiveSlot ≤ slot
  · exact .inl heff
  · have hbuiltin : entry.isBuiltin = false := by simpa using mt h.builtin heff
    have hdelay : entry.effectiveSlot - entry.deploymentSlot = 1 := by grind [Prompt]
    right
    simp [isImplicitDelayVisibilityTombstone, hbuiltin, hdelay, hle, DELAY_VISIBILITY_SLOT_OFFSET, not_le.mp heff]

/-- The batch finds the entry, or the tombstone for a visibility delay. -/
theorem Findable.found (hitem : item ∈ searchFor) (hkey : item.1 = key) :
    (c.finishCooperativeLoadingTask binarySearch env key entry).1.found graph slot env item ≠ none := by
  subst hkey
  obtain ⟨pre, post, hentries, hmem, -⟩ := h.entries hc
  have hentry : entry ∈ (c.finishCooperativeLoadingTask binarySearch env item.1 entry).1.entries item.1 := by
    simp [hentries, staysBeside_self]
  rcases lookup_cases graph slot env item.2.1 item.1 (hc.finish env item.1 entry) with
    ⟨-, hnone⟩ | ⟨n, hn, hsees, hgreatest, hdelayed, heffective⟩
  · exact absurd (hnone entry hentry) (by rw [Bool.not_eq_false]; exact h.sees)
  have hbranch := Bool.and_eq_true_iff.mp hsees
  have hn : n = entry ∨ n ∈ c.entries item.1 := by
    rw [hentries] at hn
    have := mem_of_mem_filter hn
    grind
  have hdep : n.deploymentSlot ≤ entry.deploymentSlot := by
    rcases hn with rfl | hn
    · exact le_rfl
    · exact h.newest n hn hbranch.1
  have hprompt : n.Prompt := h.prompt n (by simpa using hn)
  have hprompt' : entry.Prompt := h.prompt entry mem_cons_self
  have hplace := Prod.Lex.toLex_le_toLex.mp (hgreatest entry hentry h.sees)
  -- With delays of one slot at most, no version that was deployed before comes after the entry.
  have hsame : n.deploymentSlot = entry.deploymentSlot := by
    grind [Prompt]
  by_cases heff : n.effectiveSlot ≤ slot
  · have hvisible : entry.effectiveSlot ≤ slot := by
      grind
    rw [found, heffective heff, hsame, h.candidate hc hvisible, Option.filter_some,
      if_pos (by simp [usable, h.criteria item hitem rfl, h.notUnloaded])]
    exact Option.some_ne_none entry
  · rw [found, hdelayed (by simpa [heff] using hbranch.2)]
    exact Option.some_ne_none _

end Findable

/-! ## Replenishing -/

theorem extract_slot (graph) (env : Env) (c : ProgramCache Env Exe) (batch)
    (searchFor) :
    (c.extract graph searchFor batch env).batch.slot = batch.slot :=
  (foldl_extractItem graph env c searchFor _).1

theorem extract_missing (graph) (env : Env) (c : ProgramCache Env Exe)
    (batch) (searchFor) :
    (c.extract graph searchFor batch env).missing =
      searchFor.filter fun item => (c.found graph batch.slot env item).isNone :=
  (foldl_extractItem graph env c searchFor _).2.1

/-- A task is handed out for a program that is missing. -/
theorem exists_missing_of_task
    (hx : ∀ k, x.cooperativeLoadingTask = some k → ∃ item ∈ x.missing, item.1 = k) (k)
    (h : (searchFor.foldl (c.extractItem graph env) x).cooperativeLoadingTask = some k) :
    ∃ item ∈ (searchFor.foldl (c.extractItem graph env) x).missing, item.1 = k := by
  induction searchFor generalizing x with
  | nil => exact hx k h
  | cons item rest ih =>
    refine ih (fun k hk => ?_) h
    rw [extractItem] at hk ⊢
    split at hk
    · exact hx k hk
    · split_ifs at hk ⊢
      · exact ⟨item, by simp, Option.some.inj hk⟩
      · obtain ⟨item', hitem', hkey⟩ := hx k hk
        exact ⟨item', mem_append_left _ hitem', hkey⟩

theorem Findable.congr
    (h : Findable graph slot env searchFor c key entry) (hentries : c'.entries key = c.entries key)
    (hroot : c'.latestRootSlot = c.latestRootSlot) (hsub : searchFor' ⊆ searchFor) :
    Findable graph slot env searchFor' c' key entry where
  environment := h.environment
  criteria item hitem := h.criteria item (hsub hitem)
  branch := hroot ▸ h.branch
  newest := by
    rw [hentries, hroot]
    exact h.newest
  prompt := hentries ▸ h.prompt
  notUnloaded := h.notUnloaded
  builtin := h.builtin
  replaces := hentries ▸ h.replaces

section Replenish

/-- The cache after one round of `replenish_program_cache` that loads the program at `key`. -/
def loaded (graph : ForkGraph) (env : Env) (load : Pubkey → ProgramCacheEntry Env Exe)
    (missing : List (Pubkey × ProgramCacheMatchCriteria × Slot)) (batch : ProgramCacheForTxBatch Env Exe)
    (c : ProgramCache Env Exe) (key : Pubkey) : ProgramCache Env Exe × Bool :=
  { c with loadingEntries := (c.extract graph missing batch env).loadingEntries }.finishCooperativeLoadingTask
    binarySearch env key (load key)

theorem entries_loaded (h : k ≠ key) : (loaded graph env load missing batch c key).1.entries k = c.entries k := by
  simp [loaded, finishCooperativeLoadingTask, assignProgram, setVersions, h]

theorem replenishProgramCache_of_none (h : (c.extract graph missing batch env).cooperativeLoadingTask = none) :
    replenishProgramCache graph env load limitToLoadPrograms (fuel + 1) missing batch c = [] := by
  rw [replenishProgramCache]
  simp [h]

theorem replenishProgramCache_of_some (h : (c.extract graph missing batch env).cooperativeLoadingTask = some key) :
    replenishProgramCache graph env load limitToLoadPrograms (fuel + 1) missing batch c =
      key :: if (loaded graph env load missing batch c key).2 && limitToLoadPrograms then []
        else replenishProgramCache graph env load limitToLoadPrograms fuel (c.extract graph missing batch env).missing
          (c.extract graph missing batch env).batch (loaded graph env load missing batch c key).1 := by
  rw [replenishProgramCache]
  simp only [h]
  exact (apply_ite (cons key) _ _ _).symm

/-- A program that is found is not loaded. -/
theorem not_mem_replenishProgramCache
    (hfound : ∀ item ∈ missing, item.1 = key → c.found graph batch.slot env item ≠ none) :
    key ∉ replenishProgramCache graph env load limitToLoadPrograms fuel missing batch c := by
  induction fuel generalizing missing batch c with
  | zero => exact not_mem_nil
  | succ fuel ih =>
    cases htask : (c.extract graph missing batch env).cooperativeLoadingTask with
    | none =>
      rw [replenishProgramCache_of_none htask]
      exact not_mem_nil
    | some k =>
      have hne : key ≠ k := by
        rintro rfl
        obtain ⟨item, hitem, hkey⟩ := exists_missing_of_task (fun _ h => by cases h) key htask
        have hitem : item ∈ (c.extract graph missing batch env).missing := hitem
        rw [extract_missing, mem_filter] at hitem
        exact hfound item hitem.1 hkey (Option.isNone_iff_eq_none.mp hitem.2)
      rw [replenishProgramCache_of_some htask, mem_cons, not_or]
      refine ⟨hne, ?_⟩
      split_ifs
      · exact not_mem_nil
      · refine ih fun item hitem hkey => ?_
        rw [extract_slot, found, lookup, entries_loaded (by rwa [hkey])]
        rw [extract_missing] at hitem
        exact hfound item (mem_of_mem_filter hitem) hkey

theorem nodup_replenishProgramCache (hc : c.Sorted)
    (hload : ∀ key ∈ replenishProgramCache graph env load limitToLoadPrograms fuel missing batch c,
      Findable graph batch.slot env missing c key (load key)) :
    (replenishProgramCache graph env load limitToLoadPrograms fuel missing batch c).Nodup := by
  induction fuel generalizing missing batch c with
  | zero => exact nodup_nil
  | succ fuel ih =>
    cases htask : (c.extract graph missing batch env).cooperativeLoadingTask with
    | none =>
      rw [replenishProgramCache_of_none htask]
      exact nodup_nil
    | some key =>
      rw [replenishProgramCache_of_some htask] at hload ⊢
      split_ifs at hload ⊢
      · simp
      have hsub : (c.extract graph missing batch env).missing ⊆ missing := by
        rw [extract_missing]
        exact filter_subset_self _
      let c1 := { c with loadingEntries := (c.extract graph missing batch env).loadingEntries }
      have hfindable : Findable graph batch.slot env (c.extract graph missing batch env).missing c1 key (load key) :=
        (hload key (mem_cons_self ..)).congr rfl rfl hsub
      have hnot : key ∉ replenishProgramCache graph env load limitToLoadPrograms fuel
          (c.extract graph missing batch env).missing (c.extract graph missing batch env).batch
          (loaded graph env load missing batch c key).1 := by
        refine not_mem_replenishProgramCache fun item hitem hkey => ?_
        rw [extract_slot]
        exact hfindable.found hc hitem hkey
      refine nodup_cons.mpr ⟨hnot, ih (Sorted.finish hc env key (load key)) fun k hk => ?_⟩
      rw [extract_slot]
      have hne : k ≠ key := fun h => hnot (h ▸ hk)
      exact (hload k (mem_cons_of_mem _ hk)).congr (entries_loaded hne) rfl hsub

end Replenish

/-- A program that a batch loaded is found on the next lookup, if its entry was deployed last
on the branch of the batch and is not refused; and so the batch loads it only once. -/
theorem loaded_program_is_found (hc : c.InUse) (graph : ForkGraph) (env : Env)
    (batch : ProgramCacheForTxBatch Env Exe) (searchFor : List (Pubkey × ProgramCacheMatchCriteria × Slot)) :
    (∀ key entry, Findable graph batch.slot env searchFor c key entry →
      ∀ item ∈ ((c.finishCooperativeLoadingTask binarySearch env key entry).1.extract graph searchFor batch env).missing,
        item.1 ≠ key) ∧
    ∀ load limitToLoadPrograms fuel,
      (∀ key ∈ replenishProgramCache graph env load limitToLoadPrograms fuel searchFor batch c,
        Findable graph batch.slot env searchFor c key (load key)) →
      (replenishProgramCache graph env load limitToLoadPrograms fuel searchFor batch c).Nodup := by
  refine ⟨fun key entry h item hitem hkey => ?_, fun load limit fuel => nodup_replenishProgramCache hc.sorted⟩
  rw [extract_missing, mem_filter, Option.isNone_iff_eq_none] at hitem
  exact h.found hc.sorted hitem.1 hkey hitem.2

end Loading

namespace TwoForks

def emptyBatch : ProgramCacheForTxBatch Unit Unit where
  entries _ := none
  slot := 3

/-- The program of slot 1 is wanted as of slot 2 or later. -/
def missing : List (Pubkey × ProgramCacheMatchCriteria × Slot) := [(key, .DeployedOnOrAfterSlot 2, 3)]

theorem findable_deployed : Findable graph 3 () missing cache key (deployed 3) where
  environment := by decide
  criteria _ _ _ := by simp_all [missing, matchesCriteria, deployed]
  branch := by decide
  newest := by decide
  prompt := by unfold Prompt; decide
  notUnloaded := by decide
  builtin := by decide
  replaces := by decide

/-- The version of slot 3 is loaded, and found in its visibility delay. -/
theorem loaded_program_is_found_deployed :
    (∀ item ∈ ((cache.finishCooperativeLoadingTask binarySearch () key (deployed 3)).1.extract graph missing
      emptyBatch ()).missing, item.1 ≠ key) ∧
    replenishProgramCache graph () (fun _ => deployed 3) false 5 missing emptyBatch cache = [key] ∧
    (replenishProgramCache graph () (fun _ => deployed 3) false 5 missing emptyBatch cache).Nodup := by
  have hc : cache.Built binarySearch := .step _ (.step _ (.new 0))
  have hkeys : replenishProgramCache graph () (fun _ => deployed 3) false 5 missing emptyBatch cache = [key] := by
    decide
  obtain ⟨hfound, honce⟩ := loaded_program_is_found (c := cache) ⟨cache.loadingEntries, hc⟩ graph () emptyBatch missing
  refine ⟨hfound key (deployed 3) findable_deployed, hkeys, honce _ _ _ fun k hk => ?_⟩
  rw [hkeys, mem_singleton] at hk
  exact hk ▸ findable_deployed

/-- A builtin program at the address. -/
def builtinCache : ProgramCache Unit Unit :=
  (Operation.assignProgram () key { deployed 1 with program := .Builtin (), effectiveSlot := 1 }).run binarySearch (new 0)

/-- The program is missing, and the entry that is loaded for it is of the environment and
the branch of the batch, not older than any version, and meets the criteria. Yet the program
is loaded again in every round. -/
structure LoadedAgain (c : ProgramCache Unit Unit) (criteria : ProgramCacheMatchCriteria)
    (entry : ProgramCacheEntry Unit Unit) : Prop where
  reachable : c.Reachable binarySearch tree ∧ graph.Consistent tree c.latestRootSlot 3
  task : (c.extract graph [(key, criteria, 3)] emptyBatch ()).cooperativeLoadingTask = some key
  environment : matchesEnvironment entry () = true
  branch : entryInSameBranch graph c.latestRootSlot 3 entry = true
  newest : ∀ m ∈ c.entries key, m.deploymentSlot ≤ entry.deploymentSlot
  meets : matchesCriteria entry criteria = true
  again : replenishProgramCache graph () (fun _ => entry) false 3 [(key, criteria, 3)] emptyBatch c = [key, key, key]

/-- The four ways: the entry is refused in favour of a builtin that does not match the
criteria, it has no executable, it is a builtin in its visibility delay, or it is not
effective for longer than that. -/
theorem refused_program_is_loaded_again :
    LoadedAgain builtinCache .Tombstone (.newTombstone 1 .LoaderV3 .Closed) ∧
    LoadedAgain (new 0) .NoCriteria { deployed 1 with program := .Unloaded () } ∧
    LoadedAgain (new 0) .NoCriteria { deployed 3 with program := .Builtin () } ∧
    LoadedAgain (new 0) .NoCriteria { deployed 1 with effectiveSlot := 4 } := by
  have hbuiltin : builtinCache.Reachable binarySearch tree := .step _ (.new 0) fun h => absurd h (by decide)
  refine ⟨⟨⟨hbuiltin, consistent_graph⟩, ?_, ?_, ?_, ?_, ?_, ?_⟩, ⟨⟨.new 0, consistent_graph⟩, ?_, ?_, ?_, ?_, ?_, ?_⟩,
    ⟨⟨.new 0, consistent_graph⟩, ?_, ?_, ?_, ?_, ?_, ?_⟩, ⟨⟨.new 0, consistent_graph⟩, ?_, ?_, ?_, ?_, ?_, ?_⟩⟩ <;> decide

end TwoForks

end ProgramCache

end Svm
