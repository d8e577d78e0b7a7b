import Svm.Impl.MessageProcessor

/-!
# Compute units

A program that meters itself as a tree: it works on the context, reads the meter,
consumes units, has an instruction processed and goes on with the result, or it
returns. `Charges` is the course of the meter, which goes down from each charge to
the next, and `unitsOf` what the charges take together.
-/

namespace Svm

open Run

/-- What a program does between its invocation and its return. It changes the meter
only by `consume` and `consume_checked`. -/
inductive Program where
  | done (result : Except ProgramError Unit)
  /-- Work on the context, and what follows in the state it finds. -/
  | work (apply : InvokeContext → InvokeContext) (next : InvokeContext → Program)
  | getRemaining (next : UInt64 → Program)
  | consume (amount : UInt64) (next : Program)
  | consumeChecked (amount : UInt64) (next : Except InstructionError Unit → Program)
  /-- `process_instruction`, where the program cache has the entrypoints of `callees` at
  the ids in `cached`, and what follows its result and the units it reports. -/
  | processInstruction (cached : Pubkey → Bool) (callees : Pubkey → Program)
      (next : Except InstructionError Unit → UInt64 → Program)

namespace Program

/-- The program, run. -/
def run (ext : Externals) (ids : LoaderIds) : Program → BuiltinFunction
  | done result => MonadExcept.ofExcept result
  | work apply next => do
    let s ← get
    set { s with toInvokeContext := apply s.toInvokeContext }
    (next s.toInvokeContext).run ext ids
  | getRemaining next => do
    (next (← get).getRemaining).run ext ids
  | consume amount next => do
    modify (MeteredContext.consume amount)
    next.run ext ids
  | consumeChecked amount next => do
    let result ← fun s => .ok (result (MeteredContext.consumeChecked amount) s)
      (final (MeteredContext.consumeChecked amount) s)
    (next result).run ext ids
  | processInstruction cached callees next => do
    let callee := MeteredContext.processInstruction ext ids fun id =>
      if cached id then some ((callees id).run ext ids) else none
    let (result, computeUnitsConsumed) ← fun s =>
      .ok (result callee ⟨s, 0⟩, (final callee ⟨s, 0⟩).computeUnitsConsumed) (final callee ⟨s, 0⟩).context
    (next result computeUnitsConsumed).run ext ids

/-- The entrypoints of programs. -/
def entrypoints (ext : Externals) (ids : LoaderIds) (programs : Pubkey → Option Program) :
    Pubkey → Option BuiltinFunction := fun id => (programs id).map (run ext ids)

end Program

/-- The meter goes from the first value to the last by the charges: each starts from what
the one before it left, and none is an increase. -/
inductive Charges : UInt64 → List Charge → UInt64 → Prop where
  | nil (meter : UInt64) : Charges meter [] meter
  | cons {charge : Charge} {charges : List Charge} {meter : UInt64} (le : charge.after ≤ charge.before)
      (rest : Charges charge.after charges meter) : Charges charge.before (charge :: charges) meter

/-- The units that charges take off the meter, each counted once. -/
def unitsOf (charges : List Charge) : Nat :=
  (charges.map fun charge => charge.before.toNat - charge.after.toNat).sum

/-- Between the states the meter was written by the charges and by nothing else. -/
structure Metered (s : MeteredContext) (charges : List Charge) (s' : MeteredContext) : Prop where
  log : s'.charges = s.charges ++ charges
  meter : Charges s.computeMeter charges s'.computeMeter

/-- The units reported between the states are those of the charges between them. -/
def Reported (s : MeteredContext) (units : UInt64) (s' : MeteredContext) : Prop :=
  ∃ charges, Metered s charges s' ∧ units.toNat = unitsOf charges

/-- What is accumulated between the states are the units of the charges between them,
which come in one part for each instruction that was processed. -/
structure Accumulates (s : Accumulated) (parts : List (List Charge)) (s' : Accumulated) : Prop where
  metered : Metered s.context parts.flatten s'.context
  accumulated : s'.accumulatedConsumedUnits.toNat = s.accumulatedConsumedUnits.toNat + (parts.map unitsOf).sum

end Svm
