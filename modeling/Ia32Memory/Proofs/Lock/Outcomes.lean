import Ia32Memory.Lock.Critical

/-! What a program of brackets may come to when interrupts come as they like.
Between two acts of a program there may be a pause, in which others act.  A pause may end in many
ways, so a program has a set of outcomes from each core; one of them is that it waits forever for a
lock that is held.  The run that is told what happens in the pauses has one of these outcomes. -/

namespace Ia32Memory

/-- The ways in which an action may end, with what it gives and the core that it leaves; none if it
waits forever. -/
def Outcomes (L σ α : Type) := Core L σ → Option (α × Core L σ) → Prop

namespace Core
variable {L σ : Type}

def perform {ε α : Type} (c : Core L σ) (touches : List L)
    (body : Bool → List L → EStateM ε σ α) : Except ε α × Core L σ :=
  let c := c.note (.touched touches)
  match body c.interrupts c.held c.value with
  | .ok a value => (.ok a, { c with value })
  | .error e value => (.error e, { c with value })

def holding (c : Core L σ) (l : L) : Core L σ :=
  note { c with held := l :: c.held } (.acquired l)

theorem acquire?_of_free [DecidableEq L] {c : Core L σ} {l : L} (free : l ∉ c.held) :
    c.acquire? l = some (c.holding l) :=
  if_neg free

theorem held_release [DecidableEq L] {c c' : Core L σ} {l : L} (free : l ∉ c.held)
    (same : c'.held = (c.holding l).held) : (c'.release l).held = c.held := by
  have others : c.held.filter (· ≠ l) = c.held :=
    List.filter_eq_self.2 fun l' held => decide_eq_true fun same => free (same ▸ held)
  show c'.held.filter (· ≠ l) = c.held
  rw [same]
  exact (List.filter_cons_of_neg (by simp)).trans others

end Core

namespace Outcomes
variable {L σ α β : Type} {c c' : Core L σ}

instance : Monad (Outcomes L σ) where
  pure a c o := o = some (a, c)
  bind r f c o := (r c none ∧ o = none) ∨ ∃ a c', r c (some (a, c')) ∧ f a c' o

def certain (f : Core L σ → α × Core L σ) : Outcomes L σ α := fun c o => o = some (f c)

def act (f : Core L σ → Core L σ) : Outcomes L σ Unit := certain fun c => ((), f c)

def flag : Outcomes L σ Bool := certain fun c => (c.interrupts, c)

def acquire [DecidableEq L] (l : L) : Outcomes L σ Unit :=
  fun c o => o = (c.acquire? l).map fun c' => ((), c')

inductive Repeated (r : Outcomes L σ Unit) : Core L σ → Option (Unit × Core L σ) → Prop
  | never (c : Core L σ) : Repeated r c (some ((), c))
  | again {c c' : Core L σ} {o : Option (Unit × Core L σ)} :
      r c (some ((), c')) → Repeated r c' o → Repeated r c o
  | stuck {c : Core L σ} : r c none → Repeated r c none

theorem bind_of_some {r : Outcomes L σ α} {f : α → Outcomes L σ β} {a : α}
    {o : Option (β × Core L σ)} (first : r c (some (a, c'))) (next : f a c' o) :
    (r >>= f) c o :=
  Or.inr ⟨a, c', first, next⟩

theorem bind_of_none {r : Outcomes L σ α} {f : α → Outcomes L σ β} (first : r c none) :
    (r >>= f) c none :=
  Or.inl ⟨first, rfl⟩

/-- However the action ends, it does end, and with what is wanted. -/
def Surely (r : Outcomes L σ α) (c : Core L σ) (Q : α → Core L σ → Prop) : Prop :=
  ∀ o, r c o → ∃ a c', o = some (a, c') ∧ Q a c'

namespace Surely
variable {r : Outcomes L σ α} {Q Q' : α → Core L σ → Prop}

theorem mono (h : Surely r c Q) (weaker : ∀ a c', Q a c' → Q' a c') : Surely r c Q' := by
  intro o ended
  obtain ⟨a, c', e, q⟩ := h o ended
  exact ⟨a, c', e, weaker a c' q⟩

theorem pure {a : α} (q : Q a c) : Surely (Pure.pure a) c Q := fun _ ended => ⟨a, c, ended, q⟩

theorem certain {f : Core L σ → α × Core L σ} (q : Q (f c).1 (f c).2) :
    Surely (Outcomes.certain f) c Q :=
  fun _ ended => ⟨_, _, ended, q⟩

theorem bind {f : α → Outcomes L σ β} {Q' : β → Core L σ → Prop} (h : Surely r c Q)
    (next : ∀ a c', Q a c' → Surely (f a) c' Q') : Surely (r >>= f) c Q' := by
  rintro o (⟨waits, -⟩ | ⟨a, c', first, second⟩)
  · obtain ⟨a, c', e, -⟩ := h none waits
    cases e
  · obtain ⟨a, c', e, q⟩ := h _ first
    cases e
    exact next _ _ q o second

theorem certain_bind {f : Core L σ → α × Core L σ} {next : α → Outcomes L σ β}
    {Q : β → Core L σ → Prop} (h : Surely (next (f c).1) (f c).2 Q) :
    Surely (Outcomes.certain f >>= next) c Q :=
  bind (Q := fun a c' => a = (f c).1 ∧ c' = (f c).2) (certain ⟨rfl, rfl⟩) fun _ _ e =>
    e.1 ▸ e.2 ▸ h

theorem acquire_bind [DecidableEq L] {l : L} {next : Unit → Outcomes L σ β}
    {Q : β → Core L σ → Prop} (free : l ∉ c.held) (h : Surely (next ()) (c.holding l) Q) :
    Surely (Outcomes.acquire l >>= next) c Q := by
  have takes : Surely (Outcomes.acquire l) c fun _ c' => c' = c.holding l := by
    intro o ended
    rw [Outcomes.acquire, Core.acquire?_of_free free] at ended
    exact ⟨(), _, ended, rfl⟩
  exact takes.bind fun _ _ e => e ▸ h

theorem repeated {r : Outcomes L σ Unit} {I : Core L σ → Prop}
    (once : ∀ c, I c → Surely r c fun _ => I) (start : I c) :
    Surely (Repeated r) c fun _ => I := by
  intro o ended
  induction ended with
  | never c => exact ⟨(), c, rfl, start⟩
  | again first _ ih =>
    obtain ⟨_, c', e, kept⟩ := once _ start _ first
    cases e
    exact ih kept
  | stuck first =>
    obtain ⟨_, _, e, -⟩ := once _ start _ first
    cases e

end Surely
end Outcomes

namespace Critical
variable {L σ ε : Type} [DecidableEq L]
open Outcomes

/-- The outcomes of a program with pauses before its acts.  There is one between looking at the
flag and masking, too. -/
def ends (pause : Outcomes L σ Unit) {α : Type} :
    Critical L σ ε α → Outcomes L σ (Except ε α)
  | .done a => pure (.ok a)
  | .step touches body => do
    pause
    certain fun c => c.perform touches body
  | .andThen first next => do
    match ← first.ends pause with
    | .ok b => (next b).ends pause
    | .error e => pure (.error e)
  | .masked body => do
    pause
    let enabled ← flag
    pause
    act Core.mask
    let result ← body.ends pause
    pause
    act fun c => c.restore enabled
    return result
  | .locked l body => do
    pause
    acquire l
    let result ← body.ends pause
    pause
    act fun c => c.release l
    return result

def outcome {α : Type} : Exit ε α × Core L σ → Option (Except ε α × Core L σ)
  | (.returned a, c) => some (.ok a, c)
  | (.stopped e, c) => some (.error e, c)
  | (.waiting, _) => none

section Run
variable {pause : Outcomes L σ Unit} {between : Core L σ → Core L σ}
  (may : ∀ c, pause c (some ((), between c)))
include may

omit [DecidableEq L] in
theorem closes {α : Type} {inside : Outcomes L σ (Except ε α)} {ran : Exit ε α × Core L σ}
    {c : Core L σ} (close : Core L σ → Core L σ) (ended : inside c (outcome ran)) :
    (do
      let result ← inside
      pause
      act close
      return result : Outcomes L σ (Except ε α)) c
      ((outcome ran).map fun r => (r.1, close (between r.2))) := by
  rcases ran with ⟨a | e | -, c'⟩
  · exact bind_of_some ended (bind_of_some (may c') (bind_of_some rfl rfl))
  · exact bind_of_some ended (bind_of_some (may c') (bind_of_some rfl rfl))
  · exact bind_of_none ended

theorem ends_run {α : Type} (p : Critical L σ ε α) (c : Core L σ) :
    p.ends pause c (outcome (p.run between c)) := by
  induction p generalizing c with
  | done a => rfl
  | step touches body =>
    refine bind_of_some (may c) ?_
    show outcome (run between (.step touches body) c) = some ((between c).perform touches body)
    unfold run Core.perform
    dsimp only [Core.note]
    cases body (between c).interrupts (between c).held (between c).value <;> rfl
  | andThen first next ihFirst ihNext =>
    have began := ihFirst c
    unfold run ends
    generalize first.run between c = ran at began ⊢
    rcases ran with ⟨b | e | -, c'⟩
    · exact bind_of_some began (ihNext b c')
    · exact bind_of_some began rfl
    · exact bind_of_none began
  | masked body ih =>
    -- A handler may come before the flag is read and again before it is masked.
    refine bind_of_some (may c) (bind_of_some rfl (bind_of_some (may _) (bind_of_some rfl ?_)))
    have closed := closes may (fun c' => c'.restore (between c).interrupts)
      (ih (between (between c)).mask)
    unfold run
    dsimp only
    generalize body.run between (between (between c)).mask = ran at closed ⊢
    rcases ran with ⟨a | e | -, c'⟩ <;> exact closed
  | locked l body ih =>
    refine bind_of_some (may c) ?_
    unfold run
    dsimp only
    cases taken : (between c).acquire? l with
    | none => exact bind_of_none (congrArg (Option.map _) taken).symm
    | some held =>
      refine bind_of_some (congrArg (Option.map _) taken).symm ?_
      have closed := closes may (fun c' => c'.release l) (ih held)
      dsimp only
      generalize body.run between held = ran at closed ⊢
      rcases ran with ⟨a | e | -, c'⟩ <;> exact closed

end Run
end Critical
end Ia32Memory
