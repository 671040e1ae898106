import Ia32Memory.Lock.Core

/-! Programs made of nested brackets.
A bracket masks interrupts or holds a lock while its body runs, and is undone when the body ends,
whether it returns or is stopped by an error.  Only steps touch data; each names the locks that
protect what it touches.  Waiting for a lock that is held ends nothing and undoes nothing.

A run is told what happens between its own acts by a function on cores; the identity leaves the
core alone. -/

namespace Ia32Memory

inductive Critical (L σ ε : Type) : Type → Type 1
  | done {α : Type} (a : α) : Critical L σ ε α
  /-- A step may look at the flag and the held locks, and changes nothing but the data. -/
  | step {α : Type} (touches : List L) (body : Bool → List L → EStateM ε σ α) : Critical L σ ε α
  | andThen {α β : Type} (first : Critical L σ ε β) (next : β → Critical L σ ε α) :
      Critical L σ ε α
  | masked {α : Type} (body : Critical L σ ε α) : Critical L σ ε α
  | locked {α : Type} (l : L) (body : Critical L σ ε α) : Critical L σ ε α

inductive Exit (ε α : Type)
  | returned (a : α)
  | stopped (e : ε)
  | waiting

namespace Critical
variable {L σ ε α : Type}

instance : Monad (Critical L σ ε) where
  pure := .done
  bind := .andThen

def maskedLocked (l : L) (body : Critical L σ ε α) : Critical L σ ε α :=
  .masked (.locked l body)

def touch (touches : List L) (body : EStateM ε σ α) : Critical L σ ε α :=
  .step touches fun _ _ => body

variable [DecidableEq L]

def run (between : Core L σ → Core L σ) {α : Type} :
    Critical L σ ε α → Core L σ → Exit ε α × Core L σ
  | .done a, c => (.returned a, c)
  | .step touches body, c =>
    match (between c).note (.touched touches) with
    | ⟨interrupts, held, journal, value⟩ =>
      match body interrupts held value with
      | .ok a value => (.returned a, ⟨interrupts, held, journal, value⟩)
      | .error e value => (.stopped e, ⟨interrupts, held, journal, value⟩)
  | .andThen first next, c =>
    match first.run between c with
    | (.returned b, c) => (next b).run between c
    | (.stopped e, c) => (.stopped e, c)
    | (.waiting, c) => (.waiting, c)
  | .masked body, c =>
    let c := between c
    let enabled := c.interrupts
    match body.run between (between c).mask with
    | (.waiting, c) => (.waiting, c)
    | (exit, c) => (exit, (between c).restore enabled)
  | .locked l body, c =>
    let c := between c
    match c.acquire? l with
    | none => (.waiting, c)
    | some c =>
      match body.run between c with
      | (.waiting, c) => (.waiting, c)
      | (exit, c) => (exit, (between c).release l)

end Critical
end Ia32Memory
