import Mathlib.Tactic.Common

/-!
# Stateful programs and their runs

Two things every model of stateful code here rests on. A program that may fail
and keeps its writes when it does is an `EStateM`; `attempt` runs one and hands
its result back, `zoom` runs one on a part of a larger state, and the simp
lemmas about `run` execute one symbolically; the `_inv` lemmas take a run that
succeeded apart. A system that takes step after step is a function from
operations and states to states: what every admitted step keeps, an admitted run
of any length keeps (`runs_induction`).
-/

namespace Svm.Run

/-! ## Programs -/

section Programs

variable {ε σ τ α β ε' : Type} {x : EStateM ε σ α} {f : α → EStateM ε σ β} {b : β} {a : α} {c : Prop} {e : ε}
  {s' : σ}

/-- Runs `x`; its result is the program's value, and what it wrote stays. -/
def attempt (x : EStateM ε σ α) : EStateM ε σ (Except ε α) := fun s =>
  match x.run s with
  | .ok a s => .ok (.ok a) s
  | .error e s => .ok (.error e) s

/-- Runs a program on the part of the state that `getPart` reads and `setPart`
writes back. -/
def zoom (getPart : σ → τ) (setPart : σ → τ → σ) (x : EStateM ε τ α) : EStateM ε σ α := fun s =>
  match x.run (getPart s) with
  | .ok a t => .ok a (setPart s t)
  | .error e t => .error e (setPart s t)

/-- Runs a program with its errors renamed. -/
def mapError {ε' : Type} (f : ε → ε') (x : EStateM ε σ α) : EStateM ε' σ α := fun s =>
  match x.run s with
  | .ok a s => .ok a s
  | .error e s => .error (f e) s

/-- The state a program leaves, whether it fails or not. -/
def final (x : EStateM ε σ α) (s : σ) : σ :=
  match x.run s with
  | .ok _ s => s
  | .error _ s => s

/-- The result of a program, without the state it leaves. -/
def result (x : EStateM ε σ α) (s : σ) : Except ε α :=
  match x.run s with
  | .ok a _ => .ok a
  | .error e _ => .error e

/-- `if c { return Err(e) }`. -/
def failIf (c : Prop) [Decidable c] (e : ε) : Except ε Unit := if c then .error e else .ok ()

/-- `failIf`, in a program with state. -/
def throwIf (c : Prop) [Decidable c] (e : ε) : EStateM ε σ Unit := MonadExcept.ofExcept (failIf c e)

@[simp] theorem run_ite (c : Prop) [Decidable c] (x y : EStateM ε σ α) (s : σ) :
    (if c then x else y).run s = if c then x.run s else y.run s := by
  split <;> rfl

@[simp] theorem run_ofExcept_ok (a : α) (s : σ) : (ofExcept (.ok a) : EStateM ε σ α).run s = .ok a s := rfl

@[simp] theorem run_ofExcept_error (e : ε) (s : σ) : (ofExcept (.error e) : EStateM ε σ α).run s = .error e s := rfl

@[simp] theorem final_ofExcept (x) (s : σ) : final (ofExcept x : EStateM ε σ α) s = s := by
  cases x <;> rfl

theorem run_attempt (x : EStateM ε σ α) (s : σ) : (attempt x).run s = .ok (result x s) (final x s) := by
  simp only [attempt, result, final, EStateM.run]
  cases x s <;> rfl

theorem final_zoom (getPart : σ → τ) (setPart) (x : EStateM ε τ α) (s : σ) :
    final (zoom getPart setPart x) s = setPart s (final x (getPart s)) := by
  simp only [zoom, final, EStateM.run]
  cases x (getPart s) <;> rfl

theorem run_zoom_ok {x : EStateM ε τ α} :
    (zoom getPart setPart x).run s = .ok a s' ↔ ∃ t, x.run (getPart s) = .ok a t ∧ setPart s t = s' := by
  simp only [zoom, EStateM.run]
  cases x (getPart s) <;> simp

theorem run_mapError_ok {f : ε → ε'} : (mapError f x).run s = .ok a s' ↔ x.run s = .ok a s' := by
  simp only [mapError, EStateM.run]
  cases x s <;> simp

theorem run_mapError_eq_error {f : ε → ε'} :
    (mapError f x).run s = .error e' s' ↔ ∃ e, x.run s = .error e s' ∧ f e = e' := by
  simp only [mapError, EStateM.run]
  cases x s <;> simp [and_comm]

@[simp] theorem final_mapError (f : ε → ε') (x : EStateM ε σ α) (s : σ) : final (mapError f x) s = final x s := by
  simp only [final, mapError, EStateM.run]
  cases x s <;> rfl

theorem final_bind (x) (f : α → EStateM ε σ β) (s : σ) : final (x >>= f) s =
      match x.run s with
      | .ok a s => final (f a) s
      | .error _ s => s := by
  simp only [final, EStateM.run_bind]
  cases x.run s <;> rfl

theorem final_get_bind (f : σ → EStateM ε σ β) (s : σ) : final (get >>= f) s = final (f s) s := rfl

theorem final_modify_bind (g : σ → σ) (f : PUnit → EStateM ε σ β) (s : σ) :
    final (modify g >>= f) s = final (f ⟨⟩) (g s) := rfl

theorem final_attempt_bind (x) (f : Except ε α → EStateM ε σ β) (s : σ) :
    final (attempt x >>= f) s = final (f (result x s)) (final x s) := by
  rw [final_bind, run_attempt]

/-- A check before a result that is at hand: whichever fails, the state stays. -/
theorem final_throwIf_ofExcept (c : Prop) [Decidable c] (e : ε) (x) (s : σ) :
    final (throwIf c e >>= fun _ => (ofExcept x : EStateM ε σ α)) s = s := by
  rw [throwIf]
  cases failIf c e with
  | error e => rfl
  | ok u => exact final_ofExcept x s

theorem run_bind_ok : (x >>= f).run s = .ok b s' ↔ ∃ a s1, x.run s = .ok a s1 ∧ (f a).run s1 = .ok b s' := by
  rw [EStateM.run_bind]
  cases h : x.run s with
  | ok a s1 => simp
  | error e s1 => simp

theorem result_ok : result x s = .ok a ↔ x.run s = .ok a (final x s) := by
  simp only [result, final]
  cases x.run s <;> simp

theorem run_of_isOk {x : EStateM ε σ Unit} (h : (result x s).isOk = true) : x.run s = .ok () (final x s) := by
  refine result_ok.mp ?_
  cases hresult : result x s with
  | ok u => rfl
  | error e =>
    rw [hresult] at h
    cases h

theorem run_ofExcept_eq_ok {x : Except ε α} :
    (ofExcept x : EStateM ε σ α).run s = .ok a s' ↔ x = .ok a ∧ s' = s := by
  cases x with
  | error e => simp
  | ok b => simp [eq_comm]

theorem except_bind_ok {x : Except ε α} {f : α → Except ε β} :
    (x >>= f) = .ok b ↔ ∃ a, x = .ok a ∧ f a = .ok b := by
  cases x with
  | error e =>
    constructor
    · intro h; cases h
    · rintro ⟨_, h, _⟩; cases h
  | ok a =>
    constructor
    · exact fun h => ⟨a, rfl, h⟩
    · rintro ⟨_, h, h'⟩
      cases h
      exact h'

theorem failIf_ok [Decidable c] : failIf c e = .ok u ↔ ¬ c := by
  unfold failIf
  split <;> simp_all

theorem run_throwIf_ok [Decidable c] : (throwIf c e : EStateM ε σ Unit).run s = .ok u s' ↔ ¬ c ∧ s' = s := by
  rw [throwIf, run_ofExcept_eq_ok, failIf_ok]

theorem run_get_bind (f : σ → EStateM ε σ β) (s : σ) : (get >>= f).run s = (f s).run s := rfl

theorem bind_inv (h : (x >>= f).run s = .ok b s') : ∃ a s1, x.run s = .ok a s1 ∧ (f a).run s1 = .ok b s' :=
  run_bind_ok.mp h

theorem except_inv {x : Except ε α} {f : α → Except ε β} (h : (x >>= f) = .ok b) : ∃ a, x = .ok a ∧ f a = .ok b :=
  except_bind_ok.mp h

theorem ofExcept_inv {x : Except ε α} (h : (ofExcept x >>= f).run s = .ok b s') :
    ∃ a, x = .ok a ∧ (f a).run s = .ok b s' := by
  cases x with
  | error e => cases h
  | ok a => exact ⟨a, rfl, h⟩

/-- A value that is read off the state, where the read succeeds. -/
theorem read_inv {x : σ → Except ε α} {f : σ → α → EStateM ε σ β}
    (h : (get >>= fun s => ofExcept (x s) >>= f s).run s = .ok b s') :
    ∃ a, x s = .ok a ∧ (f s a).run s = .ok b s' := ofExcept_inv h

theorem throwIf_inv [Decidable c] {f : Unit → EStateM ε σ β} (h : (throwIf c e >>= f).run s = .ok b s') :
    ¬ c ∧ (f ()).run s = .ok b s' := by
  obtain ⟨_, hc, h⟩ := ofExcept_inv h
  exact ⟨failIf_ok.mp hc, h⟩

/-- What `x` and then each continuation keep, their sequence keeps. -/
theorem final_bind_keeps {P : σ → Prop}
    (hx : P (final x s)) (hf : ∀ a s', P s' → P (final (f a) s')) : P (final (x >>= f) s) := by
  rw [final_bind]
  simp only [final] at hx
  cases h : x.run s with
  | ok a s' => rw [h] at hx; exact hf a s' hx
  | error e s' => rw [h] at hx; exact hx

end Programs

/-! ## Systems -/

section Systems

variable {σ Op : Type} (step : Op → σ → σ)

/-- The state after a list of operations. -/
def runs (ops : List Op) (s : σ) : σ := ops.foldl (fun s op => step op s) s

/-- Every operation of the list is admitted in the state it is performed in. -/
def Admitted (P : Op → σ → Prop) : List Op → σ → Prop
  | [], _ => True
  | op :: ops, s => P op s ∧ Admitted P ops (step op s)

variable {step}

/-- What every admitted step keeps, every admitted run keeps. -/
theorem runs_induction {I : σ → Prop} (hstep : ∀ op s, P op s → I s → I (step op s))
    (hops : Admitted step P ops s) (hs : I s) : I (runs step ops s) := by
  induction ops generalizing s with
  | nil => exact hs
  | cons op ops ih =>
    obtain ⟨hop, hops⟩ := hops
    exact ih hops (hstep op s hop hs)

theorem admitted_of_forall {P : Op → Prop} (h : ∀ op ∈ ops, P op) : Admitted step (fun op _ => P op) ops s := by
  induction ops generalizing s with
  | nil => trivial
  | cons op ops ih =>
    exact ⟨h op List.mem_cons_self, ih fun op hop => h op (List.mem_cons_of_mem _ hop)⟩

/-- `runs_induction` for steps that are all admitted. -/
theorem runs_induction_all {I : σ → Prop} (hstep : ∀ op s, I s → I (step op s)) (ops)
    (hs : I s) : I (runs step ops s) :=
  runs_induction (fun op s _ => hstep op s) (admitted_of_forall fun _ _ => trivial) hs

end Systems

end Svm.Run
