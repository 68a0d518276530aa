/-!
# Actions that succeed and actions that fail

**Success.** An action that may fail succeeds exactly if each of its steps does. These are the
lemmas by which a success is taken apart, step by step, for actions without and with a state.

**Failure** (`failure?`). An action fails with what its first failing step fails with.
-/

namespace RuleEditor

variable {ε σ α β : Type}

theorem Except.bind_eq_ok {step : Except ε α} {after : α → Except ε β} {result : β} :
    (step >>= after) = .ok result ↔ ∃ value, step = .ok value ∧ after value = .ok result := by
  cases step with
  | error error => exact iff_of_false nofun fun ⟨_, h, _⟩ => nomatch h
  | ok value => exact ⟨fun h => ⟨value, rfl, h⟩, fun ⟨_, h, k⟩ => by cases h; exact k⟩

theorem StateT.bind_eq_ok {step : StateT σ (Except ε) α} {after : α → StateT σ (Except ε) β}
    {state : σ} {result : β × σ} :
    (step >>= after) state = .ok result ↔
      ∃ value mid, step state = .ok (value, mid) ∧ after value mid = .ok result := by
  show (step state >>= fun pair => after pair.1 pair.2) = .ok result ↔ _
  rw [Except.bind_eq_ok]
  exact Prod.exists

theorem StateT.lift_eq_ok {step : Except ε α} {state mid : σ} {value : α} :
    (liftM step : StateT σ (Except ε) α) state = .ok (value, mid) ↔
      step = .ok value ∧ state = mid := by
  show (step >>= fun value => .ok (value, state)) = .ok (value, mid) ↔ _
  cases step <;> simp [bind, Except.bind]

/-! ## Failure -/

/-- What an action fails with, if it does. -/
def failure? : Except ε α → Option ε
  | .error error => some error
  | .ok _ => none

variable {outcome : Except ε α} {early late : Option ε}

theorem failure?_eq_some_iff {error : ε} :
    failure? outcome = some error ↔ outcome = .error error := by
  cases outcome <;> simp [failure?]

theorem failure?_bind {step : Except ε α} {after : α → Except ε β}
    (later : ∀ value, failure? (after value) = late) :
    failure? (step >>= after) = (failure? step).or late := by
  cases step with
  | error error => rfl
  | ok value => exact later value

theorem failure?_bind_pure {step : Except ε α} {f : α → β} :
    failure? (step >>= fun value => pure (f value)) = failure? step := by
  cases step <;> rfl

/-- Whatever the state is, the action fails with this, or succeeds if this is nothing. -/
def Fails (action : StateT σ (Except ε) α) (failure : Option ε) : Prop :=
  ∀ state, failure? (action state) = failure

namespace Fails

theorem pure (value : α) : Fails (pure value : StateT σ (Except ε) α) none := fun _ => rfl

theorem modifyGet (f : σ → α × σ) :
    Fails (modifyGet f : StateT σ (Except ε) α) none := fun _ => rfl

theorem lift (step : Except ε α) :
    Fails (liftM step : StateT σ (Except ε) α) (failure? step) := fun state => by
  cases step <;> rfl

theorem bind {step : StateT σ (Except ε) α} {after : α → StateT σ (Except ε) β}
    (first : Fails step early) (later : ∀ value, Fails (after value) late) :
    Fails (step >>= after) (early.or late) := fun state => by
  rw [← first state]
  exact failure?_bind fun pair => later pair.1 pair.2

theorem bind_pure {step : StateT σ (Except ε) α} (first : Fails step early) (f : α → β) :
    Fails (step >>= fun value => Pure.pure (f value)) early := fun state => by
  rw [← first state]
  exact failure?_bind_pure

end Fails

end RuleEditor
