import Svm.Framework.Run

/-!
# Weakest preconditions

Rules for programs that keep their writes when they fail: `wp x Q E` holds of the
states from which `x` ends with `Q` or fails with `E`. A program is taken apart
with the rule of its outermost construct; what is known of a call is used through
`wp_mono`, and `wp_ok` and `wp_error` read a run off in the end.
-/

namespace Svm.Run

variable {ε σ α β : Type} {x : EStateM ε σ α}

/-- Run from the state, `x` returns a value and a state in `Q`, or fails with an error
and a state in `E`. -/
def wp (x : EStateM ε σ α) (Q : α → σ → Prop) (E : ε → σ → Prop) (s : σ) : Prop :=
  match x.run s with
  | .ok a s => Q a s
  | .error e s => E e s

@[simp] theorem wp_pure (a : α) : wp (pure a) Q E s ↔ Q a s := Iff.rfl

@[simp] theorem wp_get {Q : σ → σ → Prop} : wp get Q E s ↔ Q s s := Iff.rfl

@[simp] theorem wp_set {Q : PUnit → σ → Prop} (s' : σ) : wp (set s') Q E s ↔ Q ⟨⟩ s' := Iff.rfl

@[simp] theorem wp_modify {Q : PUnit → σ → Prop} (f : σ → σ) : wp (modify f) Q E s ↔ Q ⟨⟩ (f s) := Iff.rfl

@[simp] theorem wp_bind {Q : β → σ → Prop} (x) (f : α → EStateM ε σ β) :
    wp (x >>= f) Q E s ↔ wp x (fun a => wp (f a) Q E) E s := by
  simp only [wp, EStateM.run_bind]
  cases x.run s <;> rfl

@[simp] theorem wp_ite (c : Prop) [Decidable c] (x y) :
    wp (if c then x else y) Q E s ↔ if c then wp x Q E s else wp y Q E s := by
  split <;> rfl

theorem wp_mono (h : wp x Q E s) (hQ : ∀ a s, Q a s → Q' a s) (hE : ∀ e s, E e s → E' e s) : wp x Q' E' s := by
  unfold wp at h ⊢
  cases hx : x.run s with
  | ok a s' => rw [hx] at h; exact hQ a s' h
  | error e s' => rw [hx] at h; exact hE e s' h

/-- The rule for a sequence: `x` establishes what the rest starts from. -/
theorem wp_seq {Q : β → σ → Prop} {f : α → EStateM ε σ β} (h : wp x Q' E s) (hf : ∀ a s, Q' a s → wp (f a) Q E s) :
    wp (x >>= f) Q E s := (wp_bind x f).mpr (wp_mono h hf fun _ _ h => h)

theorem wp_ok (h : wp x Q E s) (hx : x.run s = .ok a s') : Q a s' := by
  simpa only [wp, hx] using h

theorem wp_error (h : wp x Q E s) (hx : x.run s = .error e s') : E e s' := by
  simpa only [wp, hx] using h

/-! ## Frames -/

section Frames

variable {ν : Type}

/-- However it ends, `x` leaves the view of the state as it was. -/
def Frames (view : σ → ν) (x : EStateM ε σ α) : Prop :=
  ∀ s, wp x (fun _ s' => view s' = view s) (fun _ s' => view s' = view s) s

theorem frames_pure (a : α) : Frames view (pure a : EStateM ε σ α) := fun _ => rfl

theorem frames_throw (e : ε) : Frames view (throw e : EStateM ε σ α) := fun _ => rfl

theorem frames_get : Frames view (get : EStateM ε σ σ) := fun _ => rfl

theorem Frames.bind {f : α → EStateM ε σ β} (hx : Frames view x) (hf : ∀ a, Frames view (f a)) :
    Frames view (x >>= f) := by
  intro s
  rw [wp_bind]
  refine wp_mono (hx s) (fun a s1 hs1 => ?_) fun _ _ h => h
  exact wp_mono (hf a s1) (fun _ _ h => h.trans hs1) fun _ _ h => h.trans hs1

theorem Frames.ite [Decidable c] (hx : Frames view x) (hy : Frames view y) : Frames view (if c then x else y) := by
  split
  · exact hx
  · exact hy

end Frames

end Svm.Run
