import Svm.Impl.ProgramCache
import Mathlib.Data.Prod.Lex

/-!
# What a batch may see of the program cache

The forks of the ledger are a tree of slots (`ForkTree`). A fork graph reports the
relations of that tree (`ForkGraph.Sound`), and for the slot of a batch it knows the
whole chain down to the root (`ForkGraph.Consistent`).

Of the versions of a program the batch sees those on its own chain that are effective
at its slot or in their visibility delay there. The newest of them (`Newest`) decides
what the lookup of the program finds (`ForkCorrect`). `Reachable` are the caches that
the operations of `ProgramCache` lead to.
-/

namespace Svm

/-- The blocks of the ledger, each with the one it builds on. -/
structure ForkTree where
  parent : Slot → Option Slot
  parent_lt : ∀ {slot ancestor : Slot}, parent slot = some ancestor → ancestor < slot

namespace ForkTree

/-- The first slot is the second or one of its ancestors. -/
inductive OnChain (t : ForkTree) : Slot → Slot → Prop where
  | refl (slot : Slot) : OnChain t slot slot
  | step {a p slot : Slot} (hparent : t.parent slot = some p) (hchain : OnChain t a p) : OnChain t a slot

end ForkTree

/-- What the graph reports is true in the tree. It may report that it does not know. -/
structure ForkGraph.Sound (graph : ForkGraph) (t : ForkTree) : Prop where
  equal : ∀ {a b : Slot}, graph.relationship a b = .Equal → a = b
  ancestor : ∀ {a b : Slot}, graph.relationship a b = .Ancestor → t.OnChain a b

/-- The graph knows the chain of `slot` down to the root. -/
structure ForkGraph.Consistent (graph : ForkGraph) (t : ForkTree) (root slot : Slot) : Prop
    extends graph.Sound t where
  complete : ∀ {a : Slot}, root ≤ a → t.OnChain a slot →
    graph.relationship a slot = .Equal ∨ graph.relationship a slot = .Ancestor

/-- The graph knows every relation in the tree between slots from the root on. -/
structure ForkGraph.Exact (graph : ForkGraph) (t : ForkTree) (root : Slot) : Prop extends graph.Sound t where
  descendant : ∀ {a b : Slot}, graph.relationship a b = .Descendant → t.OnChain b a
  upward : ∀ {a b : Slot}, root ≤ a → t.OnChain a b →
    graph.relationship a b = .Equal ∨ graph.relationship a b = .Ancestor
  downward : ∀ {a b : Slot}, root ≤ b → t.OnChain b a →
    graph.relationship a b = .Equal ∨ graph.relationship a b = .Descendant

variable {Env Exe : Type}

namespace ProgramCacheEntry

/-- The place of an entry among the versions of its program. -/
def place (e : ProgramCacheEntry Env Exe) : Slot ×ₗ Slot := toLex (e.effectiveSlot, e.deploymentSlot)

/-- The entry becomes effective in its deployment slot or in the next one. -/
def Prompt (e : ProgramCacheEntry Env Exe) : Prop :=
  e.deploymentSlot ≤ e.effectiveSlot ∧ e.effectiveSlot ≤ e.deploymentSlot + 1

/-- A batch at `slot` sees the entry: it is on the chain of the batch, and effective or
in its visibility delay. -/
def Visible (t : ForkTree) (slot : Slot) (e : ProgramCacheEntry Env Exe) : Prop :=
  t.OnChain e.deploymentSlot slot ∧
    (e.effectiveSlot ≤ slot ∨ e.isImplicitDelayVisibilityTombstone slot = true)

end ProgramCacheEntry

namespace ProgramCache

/-! ## Lookup -/

/-- A greatest visible version of the program at `key`. -/
structure Newest (t : ForkTree) (c : ProgramCache Env Exe) (key : Pubkey) (slot : Slot)
    (n : ProgramCacheEntry Env Exe) : Prop where
  mem : n ∈ c.entries key
  visible : n.Visible t slot
  greatest : ∀ m ∈ c.entries key, m.Visible t slot → m.place ≤ n.place

variable [DecidableEq Env]

/-- The last version of one deployment slot that is effective and matches the environment. -/
def candidate (c : ProgramCache Env Exe) (key : Pubkey) (slot : Slot) (env : Env) (deploymentSlot : Slot) :
    Option (ProgramCacheEntry Env Exe) :=
  (c.entries key).reverse.find? fun e =>
    decide (e.deploymentSlot = deploymentSlot) && decide (e.effectiveSlot ≤ slot) && matchesEnvironment e env

def usable (criteria : ProgramCacheMatchCriteria) (e : ProgramCacheEntry Env Exe) : Bool :=
  matchesCriteria e criteria && !e.isUnloaded

/-- What the lookup of a program must find for a batch at `slot`. -/
structure ForkCorrect (t : ForkTree) (c : ProgramCache Env Exe) (slot : Slot) (env : Env) (key : Pubkey)
    (criteria : ProgramCacheMatchCriteria) (found : Option (ProgramCacheEntry Env Exe)) : Prop where
  /-- Only a version on the chain of the batch. -/
  chain : ∀ e, found = some e → t.OnChain e.deploymentSlot slot
  /-- Nothing, if the batch sees no version. -/
  absent : (∀ m ∈ c.entries key, ¬ m.Visible t slot) → found = none
  /-- A tombstone, if the newest version is in its visibility delay. -/
  delayed : ∀ n, c.Newest t key slot n → n.isImplicitDelayVisibilityTombstone slot = true →
    ∃ owner, found = some (.newTombstone n.deploymentSlot owner .DelayVisibility)
  /-- Otherwise the candidate of the newest version's deployment slot, if it is usable. -/
  effective : ∀ n, c.Newest t key slot n → n.isImplicitDelayVisibilityTombstone slot = false →
    found = (c.candidate key slot env n.deploymentSlot).filter (usable criteria)

/-! ## Reachable caches -/

inductive Operation (Env Exe : Type) where
  | assignProgram (env : Env) (key : Pubkey) (entry : ProgramCacheEntry Env Exe)
  | finishCooperativeLoadingTask (env : Env) (key : Pubkey) (entry : ProgramCacheEntry Env Exe)
  | merge (env : Env) (modifiedEntries : List (Pubkey × ProgramCacheEntry Env Exe))
  | prune (graph : Option ForkGraph) (newRootSlot : Slot) (upcomingEnvironment : Option Env)
  | pruneByDeploymentSlot (slot : Slot)
  | removePrograms (keys : List Pubkey)
  | evict (victims : List (Pubkey × ProgramCacheEntry Env Exe))

namespace Operation

def run (search : (ProgramCacheEntry Env Exe → Ordering) → List (ProgramCacheEntry Env Exe) → Search.Result) :
    Operation Env Exe → ProgramCache Env Exe → ProgramCache Env Exe
  | .assignProgram env key entry, c => (c.assignProgram search env key entry).1
  | .finishCooperativeLoadingTask env key entry, c => (c.finishCooperativeLoadingTask search env key entry).1
  | .merge env modifiedEntries, c => c.merge search env modifiedEntries
  | .prune graph newRootSlot upcomingEnvironment, c => c.prune graph newRootSlot upcomingEnvironment
  | .pruneByDeploymentSlot slot, c => c.pruneByDeploymentSlot slot
  | .removePrograms keys, c => c.removePrograms keys
  | .evict victims, c => c.evict victims

/-- An entry deployed at or below the root is on the rooted chain. -/
def Rooted (t : ForkTree) (root : Slot) (e : ProgramCacheEntry Env Exe) : Prop :=
  e.deploymentSlot ≤ root → t.OnChain e.deploymentSlot root

/-- Entries assigned at or below the root are on the rooted chain, and the root moves
along its own fork. -/
def Admitted (t : ForkTree) (c : ProgramCache Env Exe) : Operation Env Exe → Prop
  | .assignProgram _ _ entry => Rooted t c.latestRootSlot entry
  | .finishCooperativeLoadingTask _ _ entry => Rooted t c.latestRootSlot entry
  | .merge _ modifiedEntries => ∀ x ∈ modifiedEntries, Rooted t c.latestRootSlot x.2
  | .prune graph newRootSlot _ => (∀ g, graph = some g → g.Sound t) ∧ t.OnChain c.latestRootSlot newRootSlot
  | .pruneByDeploymentSlot _ | .removePrograms _ | .evict _ => True

end Operation

inductive Reachable
    (search : (ProgramCacheEntry Env Exe → Ordering) → List (ProgramCacheEntry Env Exe) → Search.Result)
    (t : ForkTree) : ProgramCache Env Exe → Prop where
  | new (rootSlot : Slot) : Reachable search t (new rootSlot)
  | step {c : ProgramCache Env Exe} (op : Operation Env Exe) (hc : Reachable search t c)
      (hop : op.Admitted t c) : Reachable search t (op.run search c)

/-- The caches that any operations lead to. -/
inductive Built
    (search : (ProgramCacheEntry Env Exe → Ordering) → List (ProgramCacheEntry Env Exe) → Search.Result) :
    ProgramCache Env Exe → Prop where
  | new (rootSlot : Slot) : Built search (new rootSlot)
  | step {c : ProgramCache Env Exe} (op : Operation Env Exe) (hc : Built search c) : Built search (op.run search c)

/-! ## Pruning -/

section Pruning

/-- A batch at `slot` can use the entry: it is on the branch of the slot and effective. -/
def Serves (graph : ForkGraph) (root slot : Slot) (e : ProgramCacheEntry Env Exe) : Prop :=
  entryInSameBranch graph root slot e = true ∧ e.effectiveSlot ≤ slot

/-- What the lookup of a program finds after a prune is not older than any version that
could be used at `slot` before. -/
def NoResurrection (graph : ForkGraph) (newRootSlot : Slot) (upcoming : Option Env) (slot : Slot) (env : Env)
    (key : Pubkey) (c : ProgramCache Env Exe) : Prop :=
  ∀ found, (c.prune (some graph) newRootSlot upcoming).lookup graph slot env key .NoCriteria = some found →
    ∀ m ∈ c.entries key, Serves graph c.latestRootSlot slot m → m.deploymentSlot ≤ found.deploymentSlot

/-- The version is at the new root, or above it on one of its forks. -/
def Above (graph : ForkGraph) (newRootSlot : Slot) (e : ProgramCacheEntry Env Exe) : Prop :=
  newRootSlot ≤ e.deploymentSlot ∧ (graph.relationship e.deploymentSlot newRootSlot = .Equal ∨
    graph.relationship e.deploymentSlot newRootSlot = .Descendant)

/-- The version is below the new root, on its chain. -/
def Below (graph : ForkGraph) (root newRootSlot : Slot) (e : ProgramCacheEntry Env Exe) : Prop :=
  e.deploymentSlot < newRootSlot ∧
    (graph.relationship e.deploymentSlot newRootSlot = .Ancestor ∨ e.deploymentSlot ≤ root)

instance (graph : ForkGraph) (root newRootSlot : Slot) (e : ProgramCacheEntry Env Exe) :
    Decidable (Below graph root newRootSlot e) := inferInstanceAs (Decidable (_ ∧ _))

/-- Of the versions of a program, one has to be kept for its fork: it is not below the new
root, it is the last one below, or it is of another environment than that one. -/
def KeptForFork (graph : ForkGraph) (root newRootSlot : Slot) (versions : List (ProgramCacheEntry Env Exe))
    (e : ProgramCacheEntry Env Exe) : Prop :=
  Above graph newRootSlot e ∨ Below graph root newRootSlot e ∧ ∃ last ∈ versions.reverse.find? (Below graph root newRootSlot ·),
    e = last ∨ ∃ env ∈ e.program.getEnvironment, ∃ env' ∈ last.program.getEnvironment, env ≠ env'

variable (graph : ForkGraph) (newRootSlot : Slot) (upcoming : Env) (slot : Slot) (key : Pubkey)

/-- The version has to be kept for its fork, and is of the upcoming environment. -/
def Kept (c : ProgramCache Env Exe) (e : ProgramCacheEntry Env Exe) : Prop :=
  KeptForFork graph c.latestRootSlot newRootSlot (c.entries key) e ∧ matchesEnvironment e upcoming = true

open Classical in
/-- The last version to be kept that a batch at `slot` sees. -/
noncomputable def lastKept (c : ProgramCache Env Exe) : Option (ProgramCacheEntry Env Exe) :=
  (c.entries key).reverse.find? fun e => c.Kept graph newRootSlot upcoming key e ∧
    entryInSameBranch graph newRootSlot slot e = true ∧
    (e.effectiveSlot ≤ slot ∨ e.isImplicitDelayVisibilityTombstone slot = true)

/-- The last version to be kept is not older than any that could be used at `slot`. Or it is
effective there and can not be used itself: it is unloaded, or of another environment, and
for its deployment slot there is none without an environment. -/
def Outlived (env : Env) (c : ProgramCache Env Exe) : Prop :=
  ∀ n ∈ c.lastKept graph newRootSlot upcoming slot key,
    (∀ m ∈ c.entries key, Serves graph c.latestRootSlot slot m → m.deploymentSlot ≤ n.deploymentSlot) ∨
    n.effectiveSlot ≤ slot ∧
      if matchesEnvironment n env = true then n.isUnloaded = true
      else ∀ e ∈ c.entries key, c.Kept graph newRootSlot upcoming key e → e.deploymentSlot = n.deploymentSlot →
        e.effectiveSlot ≤ slot → e.program.getEnvironment ≠ none

end Pruning

/-! ## Versions -/

/-- No two versions of a program have the same deployment slot and the same environment,
where having none counts as one. -/
def NoDuplicates (c : ProgramCache Env Exe) : Prop :=
  ∀ key, (c.entries key).Pairwise fun e e' =>
    ¬ (e.deploymentSlot = e'.deploymentSlot ∧ e.program.getEnvironment = e'.program.getEnvironment)

/-- The versions of other deployment slots than that of the entry. -/
def others (entry : ProgramCacheEntry Env Exe) (versions : List (ProgramCacheEntry Env Exe)) :
    List (ProgramCacheEntry Env Exe) :=
  versions.filter fun e => e.deploymentSlot ≠ entry.deploymentSlot

/-- The operation assigns the entry as a version of the program at `key`, for the environment
`env`. -/
def Operation.Assigns (env : Env) (key : Pubkey) (entry : ProgramCacheEntry Env Exe) : Operation Env Exe → Prop
  | .assignProgram env' key' entry' | .finishCooperativeLoadingTask env' key' entry' =>
    env' = env ∧ key' = key ∧ entry' = entry
  | .merge env' modifiedEntries => env' = env ∧ (key, entry) ∈ modifiedEntries
  | .prune .. | .pruneByDeploymentSlot _ | .removePrograms _ | .evict _ => False

/-- The caches that operations lead to which assign the versions of a program that have one
place for one environment. -/
inductive BuiltFor (env : Pubkey → Slot ×ₗ Slot → Env) : ProgramCache Env Exe → Prop where
  | new (rootSlot : Slot) : BuiltFor env (new rootSlot)
  | step {c : ProgramCache Env Exe} (op : Operation Env Exe) (hc : BuiltFor env c)
      (hop : ∀ env' key entry, op.Assigns env' key entry → env' = env key entry.place) :
      BuiltFor env (op.run Search.binarySearch c)

/-! ## Loading -/

/-- A cache that operations lead to, whatever programs are being loaded. -/
def InUse (c : ProgramCache Env Exe) : Prop :=
  ∃ loadingEntries, Built Search.binarySearch { c with loadingEntries := loadingEntries }

/-- What makes the entry that a batch at `slot` loads for a program one that it finds. -/
structure Findable (graph : ForkGraph) (slot : Slot) (env : Env)
    (searchFor : List (Pubkey × ProgramCacheMatchCriteria × Slot)) (c : ProgramCache Env Exe) (key : Pubkey)
    (entry : ProgramCacheEntry Env Exe) : Prop where
  environment : matchesEnvironment entry env = true
  criteria : ∀ item ∈ searchFor, item.1 = key → matchesCriteria entry item.2.1 = true
  branch : entryInSameBranch graph c.latestRootSlot slot entry = true ∧ entry.deploymentSlot ≤ slot
  newest : ∀ m ∈ c.entries key, entryInSameBranch graph c.latestRootSlot slot m = true →
    m.deploymentSlot ≤ entry.deploymentSlot
  prompt : ∀ m ∈ entry :: c.entries key, m.Prompt
  notUnloaded : entry.isUnloaded = false
  /-- There is no visibility delay for a builtin program. -/
  builtin : entry.isBuiltin = true → entry.effectiveSlot ≤ slot
  /-- The last version at its place for the environment, if there is one, may be replaced. -/
  replaces : ∀ e ∈ (c.entries key).reverse.find? (fun e => decide (e.place = entry.place) && matchesEnvironment e env),
    mayReplace e entry = true

end ProgramCache

end Svm
