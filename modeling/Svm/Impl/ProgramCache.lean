import Svm.Framework.BinarySearch
import Svm.Impl.Account

/-!
# The program cache

`loaded_programs.rs`: for each program address the versions of the program deployed
on the forks of the ledger, in the order of `(effective_slot, deployment_slot)`, and
the extraction of the versions a batch of transactions may use.

The index maps an address to its versions; an address without versions is mapped to
the empty list, which no function tells apart from a missing key. The order of the
fork graph, the binary search of the standard library and the types of environments
and executables are parameters. Usage statistics, access slots and counters are left
out: they decide which entry is evicted, and here any may be.
-/

namespace Svm

/-! ## Fork graph -/

/-- How one slot relates to another on the forks of the ledger. -/
inductive BlockRelation where
  | Ancestor
  | Equal
  | Descendant
  | Unrelated
  | Unknown
deriving Repr, DecidableEq

/-- The relation of its first argument to its second. -/
structure ForkGraph where
  relationship : Slot → Slot → BlockRelation

/-! ## Entries -/

inductive ProgramCacheEntryOwner where
  | NativeLoader
  | LoaderV1
  | LoaderV2
  | LoaderV3
  | LoaderV4
deriving Repr, DecidableEq

variable {Env Exe : Type}

/-- The payload of an entry. The environment of a loaded program is the loader of its
executable. -/
inductive ProgramCacheEntryType (Env Exe : Type) where
  | FailedVerification (env : Env)
  | Closed
  | DelayVisibility
  | Unloaded (env : Env)
  | Loaded (env : Env) (executable : Exe)
  | Builtin (program : Exe)
deriving DecidableEq

def ProgramCacheEntryType.getEnvironment : ProgramCacheEntryType Env Exe → Option Env
  | .Loaded env _ => some env
  | .FailedVerification env | .Unloaded env => some env
  | .Closed | .DelayVisibility | .Builtin _ => none

/-- A version of a program at an address, on the fork of its deployment slot. -/
structure ProgramCacheEntry (Env Exe : Type) where
  program : ProgramCacheEntryType Env Exe
  accountOwner : ProgramCacheEntryOwner
  accountSize : Nat
  deploymentSlot : Slot
  effectiveSlot : Slot
deriving DecidableEq

def DELAY_VISIBILITY_SLOT_OFFSET : Slot := 1

namespace ProgramCacheEntry

variable (e : ProgramCacheEntry Env Exe)

def isTombstone : Bool :=
  match e.program with
  | .FailedVerification _ | .Closed | .DelayVisibility => true
  | .Unloaded _ | .Loaded _ _ | .Builtin _ => false

/-- `PartialEq`: two entries are equal if they take the same place among the versions. -/
def sameAs (e other : ProgramCacheEntry Env Exe) : Bool :=
  e.effectiveSlot = other.effectiveSlot && e.deploymentSlot = other.deploymentSlot &&
    e.isTombstone = other.isTombstone

def isBuiltin : Bool :=
  match e.program with
  | .Builtin _ => true
  | _ => false

def isUnloaded : Bool :=
  match e.program with
  | .Unloaded _ => true
  | _ => false

def isImplicitDelayVisibilityTombstone (slot : Slot) : Bool :=
  !e.isBuiltin && e.effectiveSlot - e.deploymentSlot = DELAY_VISIBILITY_SLOT_OFFSET &&
    e.deploymentSlot ≤ slot && slot < e.effectiveSlot

def newTombstone (slot : Slot) (accountOwner : ProgramCacheEntryOwner)
    (reason : ProgramCacheEntryType Env Exe) : ProgramCacheEntry Env Exe where
  program := reason
  accountOwner := accountOwner
  accountSize := 0
  deploymentSlot := slot
  effectiveSlot := slot

/-- Only the executable is given up; the version keeps its place. -/
def toUnloaded : Option (ProgramCacheEntry Env Exe) :=
  match e.program with
  | .Loaded env _ => some { e with program := .Unloaded env }
  | .FailedVerification _ | .Closed | .DelayVisibility | .Unloaded _ | .Builtin _ => none

end ProgramCacheEntry

inductive ProgramCacheMatchCriteria where
  | DeployedOnOrAfterSlot (slot : Slot)
  | Tombstone
  | NoCriteria
deriving Repr, DecidableEq

/-! ## The cache -/

structure ProgramCache (Env Exe : Type) where
  entries : Pubkey → List (ProgramCacheEntry Env Exe)
  /-- The slot of the batch that loads the program, of the addresses being loaded. -/
  loadingEntries : Pubkey → Option Slot
  latestRootSlot : Slot

/-- The part of a batch's view that extraction fills in. -/
structure ProgramCacheForTxBatch (Env Exe : Type) where
  entries : Pubkey → Option (ProgramCacheEntry Env Exe)
  slot : Slot

namespace ProgramCache

def new (rootSlot : Slot) : ProgramCache Env Exe where
  entries _ := []
  loadingEntries _ := none
  latestRootSlot := rootSlot

def setVersions (c : ProgramCache Env Exe) (key : Pubkey) (versions : List (ProgramCacheEntry Env Exe)) :
    ProgramCache Env Exe :=
  { c with entries := fun k => if k = key then versions else c.entries k }

variable [DecidableEq Env]

/-! ## Assigning a version -/

def isCurrentEnv (env : Env) (entryEnv : Option Env) : Bool :=
  (entryEnv.map fun e => decide (e = env)).getD true

/-- The place of `at` relative to `entry`. Entries of one place may differ in whether
their environment is the current one. -/
def comparePlace (env : Env) (entry other : ProgramCacheEntry Env Exe) : Ordering :=
  (compare other.effectiveSlot entry.effectiveSlot).then <|
    (compare other.deploymentSlot entry.deploymentSlot).then <|
      compare (isCurrentEnv env other.program.getEnvironment) (isCurrentEnv env entry.program.getEnvironment)

/-- The replacements that are expected. -/
def mayReplace (existing entry : ProgramCacheEntry Env Exe) : Bool :=
  match existing.program, entry.program with
  | .Builtin _, .Builtin _ => true
  | .Unloaded _, .Loaded _ _ => true
  | .Closed, .Closed => existing.accountOwner ≠ entry.accountOwner
  | _, _ => false

/-- Whether an existing version stays when `entry` is assigned. -/
def staysBeside (entry existing : ProgramCacheEntry Env Exe) : Bool :=
  existing.deploymentSlot ≠ entry.deploymentSlot ||
    (match existing.program.getEnvironment, entry.program.getEnvironment with
      | some a, some b => decide (a ≠ b)
      | _, _ => false) ||
    existing.sameAs entry

variable (search : (ProgramCacheEntry Env Exe → Ordering) → List (ProgramCacheEntry Env Exe) → Search.Result)

/-- The versions of one address after the assignment, and whether the place was
already taken. -/
def assignVersion
    (env : Env) (versions : List (ProgramCacheEntry Env Exe)) (entry : ProgramCacheEntry Env Exe) :
    List (ProgramCacheEntry Env Exe) × Bool :=
  match search (comparePlace env entry) versions with
  | .ok index =>
    if (versions[index]?.map fun existing => mayReplace existing entry) = some true then
      ((versions.set index entry).filter (staysBeside entry), false)
    else (versions, true)
  | .error index => ((versions.take index ++ entry :: versions.drop index).filter (staysBeside entry), false)

def assignProgram
    (env : Env) (key : Pubkey) (entry : ProgramCacheEntry Env Exe) (c : ProgramCache Env Exe) :
    ProgramCache Env Exe × Bool :=
  let (versions, wasOccupied) := assignVersion search env (c.entries key) entry
  (c.setVersions key versions, wasOccupied)

def merge
    (env : Env) (modifiedEntries : List (Pubkey × ProgramCacheEntry Env Exe)) (c : ProgramCache Env Exe) :
    ProgramCache Env Exe :=
  modifiedEntries.foldl (fun c (key, entry) => (c.assignProgram search env key entry).1) c

def finishCooperativeLoadingTask
    (env : Env) (key : Pubkey) (loadedProgram : ProgramCacheEntry Env Exe) (c : ProgramCache Env Exe) :
    ProgramCache Env Exe × Bool :=
  let c := { c with loadingEntries := fun k => if k = key then none else c.loadingEntries k }
  c.assignProgram search env key loadedProgram

/-! ## Pruning and eviction -/

def pruneByDeploymentSlot (slot : Slot) (c : ProgramCache Env Exe) : ProgramCache Env Exe :=
  { c with entries := fun key => (c.entries key).filter fun entry => entry.deploymentSlot ≠ slot }

def removePrograms (keys : List Pubkey) (c : ProgramCache Env Exe) : ProgramCache Env Exe :=
  { c with entries := fun key => if key ∈ keys then [] else c.entries key }

def matchesEnvironment (entry : ProgramCacheEntry Env Exe) (env : Env) : Bool :=
  match entry.program.getEnvironment with
  | none => true
  | some environment => environment = env

/-- Whether `prune` drops the entry for the environment of a previous feature set. -/
def isOutdated (upcomingEnvironment : Option Env) (entry : ProgramCacheEntry Env Exe) : Bool :=
  match upcomingEnvironment with
  | some env => !matchesEnvironment entry env
  | none => false

/-- The scan of `prune` over versions from the last to the first. `firstAncestor` is the
environment of the first rooted version found, once there is one. -/
def pruneScan (graph : ForkGraph) (latestRootSlot newRootSlot : Slot) (upcomingEnvironment : Option Env) :
    (firstAncestor : Option (Option Env)) → List (ProgramCacheEntry Env Exe) →
    List (ProgramCacheEntry Env Exe)
  | _, [] => []
  | firstAncestor, entry :: rest =>
    let relation := graph.relationship entry.deploymentSlot newRootSlot
    let keep (firstAncestor : Option (Option Env)) :=
      let rest := pruneScan graph latestRootSlot newRootSlot upcomingEnvironment firstAncestor rest
      if isOutdated upcomingEnvironment entry then rest else entry :: rest
    let drop := pruneScan graph latestRootSlot newRootSlot upcomingEnvironment firstAncestor rest
    if newRootSlot ≤ entry.deploymentSlot then
      if relation = .Equal ∨ relation = .Descendant then keep firstAncestor else drop
    else if relation = .Ancestor ∨ entry.deploymentSlot ≤ latestRootSlot then
      match firstAncestor with
      | none => keep (some entry.program.getEnvironment)
      | some env =>
        -- A rooted version that is overshadowed may still be used with an older environment.
        match entry.program.getEnvironment, env with
        | some entryEnv, some env => if entryEnv ≠ env then keep firstAncestor else drop
        | _, _ => drop
    else drop

/-- Without a fork graph nothing is pruned and the root stays. -/
def prune (graph : Option ForkGraph) (newRootSlot : Slot) (upcomingEnvironment : Option Env)
    (c : ProgramCache Env Exe) : ProgramCache Env Exe :=
  match graph with
  | none => c
  | some graph =>
    { c with
      entries := fun key =>
        (pruneScan graph c.latestRootSlot newRootSlot upcomingEnvironment none (c.entries key).reverse).reverse
      latestRootSlot := newRootSlot }

/-- The first version equal to the given one is unloaded if it can be. -/
def unloadVersion (removeEntry : ProgramCacheEntry Env Exe) :
    List (ProgramCacheEntry Env Exe) → List (ProgramCacheEntry Env Exe)
  | [] => []
  | entry :: rest =>
    if entry.sameAs removeEntry then entry.toUnloaded.getD entry :: rest
    else entry :: unloadVersion removeEntry rest

def unloadProgramEntry (key : Pubkey) (removeEntry : ProgramCacheEntry Env Exe) (c : ProgramCache Env Exe) :
    ProgramCache Env Exe :=
  c.setVersions key (unloadVersion removeEntry (c.entries key))

/-- `evict_using_random_selection` and `sort_and_unload`: some of the loaded entries,
in some order, are unloaded. -/
def evict (victims : List (Pubkey × ProgramCacheEntry Env Exe)) (c : ProgramCache Env Exe) :
    ProgramCache Env Exe :=
  victims.foldl (fun c (key, entry) => c.unloadProgramEntry key entry) c

/-! ## Extraction -/

def matchesCriteria (program : ProgramCacheEntry Env Exe) : ProgramCacheMatchCriteria → Bool
  | .DeployedOnOrAfterSlot slot => slot ≤ program.deploymentSlot
  | .Tombstone => program.isTombstone
  | .NoCriteria => true

variable (graph : ForkGraph)

def entryInSameBranch (latestRootSlot slot : Slot) (entry : ProgramCacheEntry Env Exe) :
    Bool :=
  entry.deploymentSlot ≤ latestRootSlot ||
    (graph.relationship entry.deploymentSlot slot = .Equal ||
      graph.relationship entry.deploymentSlot slot = .Ancestor)

/-- The scan of `extract` over the versions of an address from the last to the first. -/
def extractScan (graph : ForkGraph) (latestRootSlot slot : Slot) (env : Env)
    (criteria : ProgramCacheMatchCriteria) :
    (filterByDeploymentSlot : Option Slot) → List (ProgramCacheEntry Env Exe) →
    Option (ProgramCacheEntry Env Exe)
  | _, [] => none
  | filterByDeploymentSlot, entry :: rest =>
    if filterByDeploymentSlot.getD entry.deploymentSlot ≠ entry.deploymentSlot then
      extractScan graph latestRootSlot slot env criteria filterByDeploymentSlot rest
    else if entryInSameBranch graph latestRootSlot slot entry then
      if entry.effectiveSlot ≤ slot then
        if !matchesEnvironment entry env then
          extractScan graph latestRootSlot slot env criteria
            (filterByDeploymentSlot.or (some entry.deploymentSlot)) rest
        else if !matchesCriteria entry criteria then none
        else if entry.isUnloaded then none
        else some entry
      else if entry.isImplicitDelayVisibilityTombstone slot then
        some (.newTombstone entry.deploymentSlot entry.accountOwner .DelayVisibility)
      else extractScan graph latestRootSlot slot env criteria filterByDeploymentSlot rest
    else extractScan graph latestRootSlot slot env criteria filterByDeploymentSlot rest

/-- What `extract` finds for one item of `search_for`. -/
def lookup (slot : Slot) (env : Env) (key : Pubkey) (criteria : ProgramCacheMatchCriteria)
    (c : ProgramCache Env Exe) : Option (ProgramCacheEntry Env Exe) :=
  extractScan graph c.latestRootSlot slot env criteria none (c.entries key).reverse

/-- The state of `extract` while it goes through `search_for`. -/
structure Extraction (Env Exe : Type) where
  /-- The items that stay in `search_for`. -/
  missing : List (Pubkey × ProgramCacheMatchCriteria × Slot)
  batch : ProgramCacheForTxBatch Env Exe
  loadingEntries : Pubkey → Option Slot
  cooperativeLoadingTask : Option Pubkey

def extractItem (env : Env) (c : ProgramCache Env Exe) (x : Extraction Env Exe)
    (item : Pubkey × ProgramCacheMatchCriteria × Slot) : Extraction Env Exe :=
  match c.lookup graph x.batch.slot env item.1 item.2.1 with
  | some entry =>
    { x with batch := { x.batch with entries := fun k => if k = item.1 then some entry else x.batch.entries k } }
  | none =>
    if x.cooperativeLoadingTask = none ∧ x.loadingEntries item.1 = none then
      { x with
        missing := x.missing ++ [item]
        loadingEntries := fun k => if k = item.1 then some x.batch.slot else x.loadingEntries k
        cooperativeLoadingTask := some item.1 }
    else { x with missing := x.missing ++ [item] }

def extract (searchFor : List (Pubkey × ProgramCacheMatchCriteria × Slot))
    (batch : ProgramCacheForTxBatch Env Exe) (env : Env) (c : ProgramCache Env Exe) : Extraction Env Exe :=
  searchFor.foldl (c.extractItem graph env)
    { missing := [], batch := batch, loadingEntries := c.loadingEntries, cooperativeLoadingTask := none }

/-- `replenish_program_cache` while no other thread modifies the cache: the addresses of
the programs that `load` is called for, in this order. The loop ends if every program was
found, or if all that are missing are loaded by other threads. -/
def replenishProgramCache (graph : ForkGraph) (env : Env) (load : Pubkey → ProgramCacheEntry Env Exe)
    (limitToLoadPrograms : Bool) : (fuel : Nat) → (missing : List (Pubkey × ProgramCacheMatchCriteria × Slot)) →
    ProgramCacheForTxBatch Env Exe → ProgramCache Env Exe → List Pubkey
  | 0, _, _, _ => []
  | fuel + 1, missing, batch, c =>
    let x := c.extract graph missing batch env
    match x.cooperativeLoadingTask with
    | none => []
    | some key =>
      let c := { c with loadingEntries := x.loadingEntries }
      let (c, wasOccupied) := c.finishCooperativeLoadingTask Search.binarySearch env key (load key)
      if wasOccupied && limitToLoadPrograms then [key]
      else key :: replenishProgramCache graph env load limitToLoadPrograms fuel x.missing x.batch c

end ProgramCache

end Svm
