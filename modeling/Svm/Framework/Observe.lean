import Svm.Framework.Run

/-!
# Programs that observe a view of their state

A cache in front of a store changes with every read, but what can be read from it does
not. A program `Observes` a view of its state when its result depends on the view alone
and it leaves the view as it was, in every state that satisfies an invariant. A program
goes `Along` a relation that every run of it relates the first and the last state by.
Both are `Compositional`: they hold of programs built from programs they hold of.
-/

namespace Svm.Run

variable {σ ν α : Type} {x : EStateM ε σ α}

/-! ## Compositional properties -/

/-- A property of programs that composition keeps. -/
structure Compositional (P : (α : Type) → EStateM ε σ α → Prop) : Prop where
  ofExcept : ∀ {α : Type} (x : Except ε α), P α (MonadExcept.ofExcept x)
  bind : ∀ {α β : Type} {x : EStateM ε σ α} {f : α → EStateM ε σ β}, P α x → (∀ a, P β (f a)) → P β (x >>= f)
  attempt : ∀ {α : Type} {x : EStateM ε σ α}, P α x → P (Except ε α) (attempt x)

namespace Compositional

variable {P : (α : Type) → EStateM ε σ α → Prop}

theorem ite (_hP : Compositional P) [Decidable c] (hx : P α x) (hy : P α y) : P α (if c then x else y) := by
  split
  · exact hx
  · exact hy

variable (hP : Compositional P)
include hP

theorem pure (a : α) : P α (Pure.pure a) := hP.ofExcept (.ok a)

theorem foldlM {γ : Type} {f : α → γ → EStateM ε σ α} (hf : ∀ a c, P α (f a c)) (l : List γ) (a : α) :
    P α (l.foldlM f a) := by
  induction l generalizing a with
  | nil => exact hP.pure a
  | cons c l ih => exact hP.bind (hf a c) ih

theorem forM {γ : Type} {f : γ → EStateM ε σ PUnit} (hf : ∀ c, P PUnit (f c)) (l : List γ) : P PUnit (l.forM f) := by
  induction l with
  | nil => exact hP.pure _
  | cons c l ih => exact hP.bind (hf c) fun _ => ih

end Compositional

/-! ## Observing programs -/

structure Observes (I : σ → Prop) (view : σ → ν) (x : EStateM ε σ α) : Prop where
  inv : ∀ {s : σ}, I s → I (final x s)
  view_final : ∀ {s : σ}, I s → view (final x s) = view s
  result_eq : ∀ {s s' : σ}, I s → I s' → view s = view s' → result x s = result x s'

namespace Observes

theorem ofExcept (x) : Observes I view (ofExcept x : EStateM ε σ α) where
  inv hs := by rwa [final_ofExcept]
  view_final _ := by rw [final_ofExcept]
  result_eq _ _ _ := by cases x <;> rfl

theorem bind {f : α → EStateM ε σ β} (hx : Observes I view x)
    (hf : ∀ a, Observes I view (f a)) : Observes I view (x >>= f) where
  inv {s} hs := by
    have hs' := hx.inv hs
    rw [final_bind]
    simp only [final] at hs'
    cases h : x.run s with
    | ok a s1 => rw [h] at hs'; exact (hf a).inv hs'
    | error e s1 => rw [h] at hs'; exact hs'
  view_final {s} hs := by
    have hs' := hx.inv hs
    have hv := hx.view_final hs
    rw [final_bind]
    simp only [final] at hs' hv
    cases h : x.run s with
    | ok a s1 => rw [h] at hs' hv; exact ((hf a).view_final hs').trans hv
    | error e s1 => rw [h] at hv; exact hv
  result_eq {s s'} hs hs' hview := by
    have hr := hx.result_eq hs hs' hview
    have hi := hx.inv hs
    have hi' := hx.inv hs'
    have hv : view (final x s) = view (final x s') := by
      rw [hx.view_final hs, hx.view_final hs', hview]
    simp only [result, final, EStateM.run_bind] at hr hi hi' hv ⊢
    cases h : x.run s with
    | ok a s1 =>
      cases h' : x.run s' with
      | ok a' s1' =>
        simp only [h, h', Except.ok.injEq] at hr hi hi' hv
        subst hr
        exact (hf a).result_eq hi hi' hv
      | error e s1' => simp [h, h'] at hr
    | error e s1 =>
      cases h' : x.run s' with
      | ok a' s1' => simp [h, h'] at hr
      | error e' s1' => simpa [h, h'] using hr

theorem attempt (hx : Observes I view x) : Observes I view (attempt x) := by
  have hfinal (s : σ) : final (Run.attempt x) s = final x s := by
    rw [final, run_attempt]
  have hresult (s : σ) : result (Run.attempt x) s = .ok (result x s) := by
    rw [result, run_attempt]
  refine ⟨fun hs => ?_, fun hs => ?_, fun hs hs' hview => ?_⟩
  · rw [hfinal]
    exact hx.inv hs
  · rw [hfinal]
    exact hx.view_final hs
  · rw [hresult, hresult, hx.result_eq hs hs' hview]

theorem compositional : Compositional (ε := ε) fun _ => Observes I view := ⟨ofExcept, bind, attempt⟩

end Observes

/-! ## Programs along a relation -/

/-- Every run of the program relates its first and its last state. -/
def Along (R : σ → σ → Prop) (x : EStateM ε σ α) : Prop := ∀ s, R s (final x s)

namespace Along

theorem run (hx : Along R x) (h : x.run s = .ok a s') : R s s' := by
  have hs := hx s
  rwa [final, h] at hs

theorem compositional (hrefl : ∀ s, R s s) (htrans : ∀ {s s' s'' : σ}, R s s' → R s' s'' → R s s'') :
    Compositional (ε := ε) fun _ => Along R where
  ofExcept x s := by
    rw [final_ofExcept]
    exact hrefl s
  bind {_ _ x f} hx hf s := by
    have hs := hx s
    rw [final_bind]
    simp only [final] at hs
    cases h : x.run s with
    | ok a s1 => rw [h] at hs; exact htrans hs (hf a s1)
    | error e s1 => rw [h] at hs; exact hs
  attempt {_ x} hx s := by
    have hs := hx s
    rw [final, run_attempt]
    exact hs

end Along

end Svm.Run
