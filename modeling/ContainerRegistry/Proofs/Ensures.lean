/-
# What every outcome of an action satisfies

The state of an action is seen through a view, which forgets what does not
matter and admits only the states that do occur. An action ensures a condition
from a view when its outcome satisfies it in every state that is seen so, whether
it fails or not, and leaves a state that the view admits. There is one rule for
each way in which actions are made.

Key definitions: `View`, `Action.Ensures`.
Key theorems: `Action.Ensures.bind`, `Action.Ensures.mono`, `Action.Ensures.zoom`.
-/
import ContainerRegistry.Registry.Basic

namespace ContainerRegistry

/-- What matters of a state. -/
structure View (σ ω : Type) where
  /-- The states that occur. -/
  admits : σ → Prop
  /-- What is seen of a state. -/
  look : σ → ω

namespace Action

variable {σ τ ω χ ε δ α β : Type}

/-- The outcome of an action satisfies a condition in every state of a view. -/
def Ensures (v : View σ ω) (action : Action σ ε α) (w : ω) (post : Except ε α → ω → Prop) :
    Prop :=
  ∀ s, v.admits s → v.look s = w →
    v.admits (action.outcome s).2 ∧ post (action.outcome s).1 (v.look (action.outcome s).2)

/-- What remains to be ensured after the first of two actions. -/
abbrev Then (v : View σ ω) (next : α → Action σ ε β) (post : Except ε β → ω → Prop) :
    Except ε α → ω → Prop
  | .ok a, w => Ensures v (next a) w post
  | .error e, w => post (.error e) w

theorem mapError_ok (f : ε → δ) (a : α) : (Except.ok a : Except ε α).mapError f = .ok a :=
  rfl

theorem not_ok_of_eq_error {x : Except ε α} {e : ε} (h : x = .error e) : ¬ ∃ a, x = .ok a := by
  rintro ⟨a, ha⟩
  cases ha.symm.trans h

namespace Ensures

variable {v : View σ ω} {w : ω}

theorem pure {a : α} {post : Except ε α → ω → Prop} (h : post (.ok a) w) :
    Ensures v (Pure.pure a) w post := by
  intro s hs hw
  rw [outcome_pure]
  exact ⟨hs, hw ▸ h⟩

theorem throw {e : ε} {post : Except ε α → ω → Prop} (h : post (.error e) w) :
    Ensures v (MonadExcept.throw e) w post := by
  intro s hs hw
  exact ⟨hs, hw ▸ h⟩

theorem ofExcept {x : Except ε α} {post : Except ε α → ω → Prop} (h : post x w) :
    Ensures v (MonadExcept.ofExcept x) w post := by
  cases x with
  | ok a => exact pure h
  | error e => exact throw h

theorem bind {action : Action σ ε α} {next : α → Action σ ε β} {post : Except ε β → ω → Prop}
    (h : Ensures v action w (Then v next post)) : Ensures v (action >>= next) w post := by
  intro s hs hw
  obtain ⟨hs', hpost⟩ := h s hs hw
  rw [outcome_bind]
  rcases ho : action.outcome s with ⟨_ | a, s'⟩
  · simp only [ho] at hs' hpost ⊢
    exact ⟨hs', hpost⟩
  · simp only [ho] at hs' hpost ⊢
    exact hpost s' hs' rfl

theorem mono {action : Action σ ε α} {post post' : Except ε α → ω → Prop}
    (h : Ensures v action w post) (himp : ∀ x w', post x w' → post' x w') :
    Ensures v action w post' := by
  intro s hs hw
  obtain ⟨hs', hpost⟩ := h s hs hw
  exact ⟨hs', himp _ _ hpost⟩

theorem and {action : Action σ ε α} {post post' : Except ε α → ω → Prop}
    (h : Ensures v action w post) (h' : Ensures v action w post') :
    Ensures v action w fun x w' => post x w' ∧ post' x w' := by
  intro s hs hw
  exact ⟨(h s hs hw).1, (h s hs hw).2, (h' s hs hw).2⟩

/-- Reading the state gives one that the view shows. -/
theorem bind_get {next : σ → Action σ ε β} {post : Except ε β → ω → Prop}
    (h : ∀ s, v.admits s → v.look s = w → Ensures v (next s) w post) :
    Ensures v (get >>= next) w post := by
  intro s hs hw
  rw [outcome_bind, outcome_get]
  exact h s hs hw s hs hw

theorem mapError {action : Action σ ε α} {f : ε → δ} {post : Except δ α → ω → Prop}
    (h : Ensures v action w fun x w' => post (x.mapError f) w') :
    Ensures v (action.mapError f) w post := by
  intro s hs hw
  rw [outcome_mapError]
  exact h s hs hw

theorem attempt {action : Action σ ε α} {post : Except δ (Except ε α) → ω → Prop}
    (h : Ensures v action w fun x w' => post (.ok x) w') :
    Ensures v (action.attempt : Action σ δ _) w post :=
  h

/-- An action on a part of a state is seen through the view of that part. -/
theorem zoom {u : View τ χ} {part : τ → σ} {restore : τ → σ → τ} {action : Action σ ε α}
    {t : χ} {post : Except ε α → χ → Prop}
    (h : ∀ s, u.admits s → u.look s = t →
      v.admits (part s) ∧ v.look (part s) = w ∧ Ensures v action w fun x w' =>
        ∀ s', v.admits s' → v.look s' = w' →
          u.admits (restore s s') ∧ post x (u.look (restore s s'))) :
    Ensures u (action.zoom part restore) t post := by
  intro s hs ht
  obtain ⟨hp, hw, haction⟩ := h s hs ht
  obtain ⟨hs', hpost⟩ := haction (part s) hp hw
  exact hpost _ hs' rfl

end Ensures
end Action

/-! ### Storage calls in the registry -/

section Absence

open ContainerRegistry.Action

variable {σ ω α : Type} {v : View σ ω} {w : ω} {call : Action σ StorageError α}

/-- The answer that `found` makes of a call's. -/
def foundAnswer : Except StorageError α → Except RegistryError (Option α)
  | .ok a => .ok (some a)
  | .error e => if e.isNotFound then .ok none else .error (.storage e)

theorem outcome_found (call : Action σ StorageError α) (s : σ) :
    (found call).outcome s = (foundAnswer (call.outcome s).1, (call.outcome s).2) := by
  rw [found, outcome, ofOutcome]
  rcases call.outcome s with ⟨_ | _, _⟩ <;> rfl

theorem ensures_stored {post : Except RegistryError α → ω → Prop}
    (h : Ensures v call w fun x w' => post (x.mapError .storage) w') :
    Ensures v (stored call) w post :=
  h.mapError

theorem ensures_orUnknown {unknown : RegistryError} {post : Except RegistryError α → ω → Prop}
    (h : Ensures v call w fun x w' =>
      post (x.mapError fun e => if e.isNotFound then unknown else .storage e) w') :
    Ensures v (orUnknown unknown call) w post :=
  h.mapError

theorem ensures_found {post : Except RegistryError (Option α) → ω → Prop}
    (h : Ensures v call w fun x w' => post (foundAnswer x) w') :
    Ensures v (found call) w post := by
  intro s hs hw
  rw [outcome_found]
  exact h s hs hw

/-! ### What storage calls come to in the registry -/

variable {x x' : σ} {a : α} {e : StorageError}

theorem outcome_found_ok (h : call.outcome x = (.ok a, x')) :
    (found call).outcome x = (.ok (some a), x') := by
  rw [outcome_found, h]
  rfl

theorem outcome_found_missing (he : e.isNotFound = true) (h : call.outcome x = (.error e, x')) :
    (found call).outcome x = (.ok none, x') := by
  rw [outcome_found, h]
  simp only [foundAnswer, if_pos he]

theorem outcome_orUnknown_ok (h : call.outcome x = (.ok a, x')) {unknown : RegistryError} :
    (orUnknown unknown call).outcome x = (.ok a, x') := by
  rw [orUnknown, outcome_mapError, h]
  rfl

theorem outcome_orUnknown_missing (he : e.isNotFound = true) (h : call.outcome x = (.error e, x'))
    {unknown : RegistryError} : (orUnknown unknown call).outcome x = (.error unknown, x') := by
  rw [orUnknown, outcome_mapError, h]
  exact congrArg (fun answer => (Except.error answer, x')) (if_pos he)

end Absence

end ContainerRegistry
