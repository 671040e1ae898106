import Ia32Memory.Fault

/-! Runs with a state, evaluated at a state.
A step either gives a value and a state or stops with an error and a state.  The equations here
push a state through the ways in which steps are put together, so that what an operation does is
computed from what its parts do. -/

namespace Ia32Memory
variable {ε σ α β : Type}

@[simp] theorem step_pure (a : α) (s : σ) : (pure a : EStateM ε σ α) s = .ok a s := rfl

@[simp] theorem step_throw (e : ε) (s : σ) : (throw e : EStateM ε σ α) s = .error e s := rfl

@[simp] theorem step_get (s : σ) : (get : EStateM ε σ σ) s = .ok s s := rfl

@[simp] theorem step_modify (f : σ → σ) (s : σ) :
    (modify f : EStateM ε σ PUnit) s = .ok ⟨⟩ (f s) := rfl

theorem step_bind (x : EStateM ε σ α) (f : α → EStateM ε σ β) (s : σ) :
    (x >>= f) s = match x s with
      | .ok a s => f a s
      | .error e s => .error e s := rfl

theorem step_bind_ok {x : EStateM ε σ α} {s t : σ} {a : α} (h : x s = .ok a t)
    (f : α → EStateM ε σ β) : (x >>= f) s = f a t := by
  rw [step_bind, h]

theorem step_bind_error {x : EStateM ε σ α} {s t : σ} {e : ε} (h : x s = .error e t)
    (f : α → EStateM ε σ β) : (x >>= f) s = .error e t := by
  rw [step_bind, h]

theorem step_bind_eq_ok {x : EStateM ε σ α} {f : α → EStateM ε σ β} {s u : σ} {b : β} :
    (x >>= f) s = .ok b u ↔ ∃ a t, x s = .ok a t ∧ f a t = .ok b u := by
  rw [step_bind]
  cases x s <;> simp [and_assoc]

@[simp] theorem step_get_bind (f : σ → EStateM ε σ β) (s : σ) : (get >>= f) s = f s s := rfl

@[simp] theorem step_modify_bind (g : σ → σ) (f : PUnit → EStateM ε σ β) (s : σ) :
    (modify g >>= f) s = f ⟨⟩ (g s) := rfl

@[simp] theorem step_pure_bind (a : α) (f : α → EStateM ε σ β) (s : σ) :
    ((pure a : EStateM ε σ α) >>= f) s = f a s := rfl

@[simp] theorem step_throw_bind (e : ε) (f : α → EStateM ε σ β) (s : σ) :
    ((throw e : EStateM ε σ α) >>= f) s = .error e s := rfl

@[simp] theorem step_lift_ok (a : α) (s : σ) :
    (liftM (Except.ok a : Except Fault α) : EStateM Fault σ α) s = .ok a s := rfl

@[simp] theorem step_lift_error (e : Fault) (s : σ) :
    (liftM (Except.error e : Except Fault α) : EStateM Fault σ α) s = .error e s := rfl

@[simp] theorem step_lift_ok_bind (a : α) (f : α → EStateM Fault σ β) (s : σ) :
    ((liftM (Except.ok a : Except Fault α) : EStateM Fault σ α) >>= f) s = f a s := rfl

@[simp] theorem step_lift_error_bind (e : Fault) (f : α → EStateM Fault σ β) (s : σ) :
    ((liftM (Except.error e : Except Fault α) : EStateM Fault σ α) >>= f) s = .error e s := rfl

theorem step_lift_bind_of_ok {x : Except Fault α} {a : α} (h : x = .ok a)
    (f : α → EStateM Fault σ β) (s : σ) :
    ((liftM x : EStateM Fault σ α) >>= f) s = f a s := by
  rw [h]
  rfl

theorem step_lift_eq_ok {x : Except Fault α} {a : α} {s t : σ} :
    (liftM x : EStateM Fault σ α) s = .ok a t ↔ x = .ok a ∧ t = s := by
  cases x <;> simp [eq_comm]

theorem fit_of_lt {bits n : Nat} (h : n < 1 <<< bits) : fit bits n = .ok n := if_pos h

theorem minus_of_le {a b : Nat} (h : b ≤ a) : minus a b = .ok (a - b) := if_pos h

@[simp] theorem except_map_ok (f : α → β) (a : α) :
    f <$> (Except.ok a : Except ε α) = .ok (f a) := rfl

@[simp] theorem except_ok_bind (a : α) (f : α → Except ε β) :
    ((Except.ok a : Except ε α) >>= f) = f a := rfl

@[simp] theorem except_error_bind (e : ε) (f : α → Except ε β) :
    ((Except.error e : Except ε α) >>= f) = .error e := rfl

theorem except_pure (a : α) : (pure a : Except ε α) = .ok a := rfl

theorem except_bind_ok (x : Except ε α) : (x >>= .ok) = x := bind_pure x

theorem except_bind_eq_ok {x : Except ε α} {f : α → Except ε β} {b : β} :
    (x >>= f) = .ok b ↔ ∃ a, x = .ok a ∧ f a = .ok b := by
  cases x <;> simp

def endValue : EStateM.Result ε σ α → Except ε α
  | .ok a _ => .ok a
  | .error e _ => .error e

def endState : EStateM.Result ε σ α → σ
  | .ok _ s => s
  | .error _ s => s

def inState {ε σ α : Type} (f : σ → σ) : EStateM.Result ε σ α → EStateM.Result ε σ α
  | .ok a s => .ok a (f s)
  | .error e s => .error e (f s)

/-- Whatever stands in a part of the state, a run does the same and leaves that part alone. -/
def Blind {ν ε σ α : Type} (put : ν → σ → σ) (run : EStateM ε σ α) : Prop :=
  ∀ v s, run (put v s) = inState (put v) (run s)

@[simp] theorem endState_inState (f : σ → σ) (r : EStateM.Result ε σ α) :
    endState (inState f r) = f (endState r) := by
  cases r <;> rfl

@[simp] theorem endValue_inState (f : σ → σ) (r : EStateM.Result ε σ α) :
    endValue (inState f r) = endValue r := by
  cases r <;> rfl

section Blind
variable {ν : Type} {put : ν → σ → σ}

theorem blind_pure (put : ν → σ → σ) (a : α) : Blind put (pure a : EStateM ε σ α) :=
  fun _ _ => rfl

theorem blind_throw (put : ν → σ → σ) (e : ε) : Blind put (throw e : EStateM ε σ α) :=
  fun _ _ => rfl

theorem blind_throw_bind (put : ν → σ → σ) (e : ε) (next : α → EStateM ε σ β) :
    Blind put (throw e >>= next) :=
  fun _ _ => rfl

theorem blind_lift (put : ν → σ → σ) (x : Except Fault α) :
    Blind put (liftM x : EStateM Fault σ α) := by
  cases x with
  | ok a => exact blind_pure put a
  | error f => exact blind_throw put f

theorem blind_modify {g : σ → σ} (apart : ∀ v s, g (put v s) = put v (g s)) :
    Blind put (modify g : EStateM ε σ PUnit) :=
  fun v s => congrArg (EStateM.Result.ok _) (apart v s)

theorem Blind.bind {run : EStateM ε σ α} {next : α → EStateM ε σ β} (first : Blind put run)
    (rest : ∀ a, Blind put (next a)) : Blind put (run >>= next) := by
  intro v s
  rw [step_bind, step_bind, first v s]
  cases run s with
  | ok a s => exact rest a v s
  | error e s => rfl

theorem blind_get_bind {next : σ → EStateM ε σ α} (apart : ∀ v s, next (put v s) = next s)
    (rest : ∀ s, Blind put (next s)) : Blind put (get >>= next) := by
  intro v s
  rw [step_get_bind, step_get_bind, apart]
  exact rest s v s

theorem Blind.ite {c : Prop} [Decidable c] {yes no : EStateM ε σ α} (hyes : Blind put yes)
    (hno : Blind put no) : Blind put (if c then yes else no) := by
  split
  · exact hyes
  · exact hno

end Blind
end Ia32Memory
