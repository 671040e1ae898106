/-! One processor core with spin locks: the interrupt flag, the locks that are held, and the data
that they protect.
Masking turns interrupts off and remembers how they were.  A guard is what a holder keeps; giving it
back undoes what was done for it, in the opposite order.  A release stores "free" without asking
who holds the lock.  The core keeps a journal of these acts, newest first, with the flag and the
held locks as they were right after each. -/

namespace Ia32Memory

inductive Act (L : Type)
  | masked
  | restored (enabled : Bool)
  | acquired (lock : L)
  | released (lock : L)
  | touched (locks : List L)
  deriving DecidableEq

structure Moment (L : Type) where
  act : Act L
  interrupts : Bool
  held : List L
  deriving DecidableEq

structure Core (L σ : Type) where
  interrupts : Bool
  held : List L
  journal : List (Moment L)
  value : σ

/-- What is to be undone when a holder is done. -/
inductive Guard (L : Type)
  | mask (enabled : Bool)
  | lock (lock : L)
  | maskedLock (lock : L) (enabled : Bool)
  deriving DecidableEq

def Guard.lock? {L : Type} : Guard L → Option L
  | mask _ => none
  | lock l => some l
  | maskedLock l _ => some l

namespace Core
variable {L σ : Type}

def start (value : σ) : Core L σ := ⟨true, [], [], value⟩

def note (c : Core L σ) (act : Act L) : Core L σ :=
  { c with journal := ⟨act, c.interrupts, c.held⟩ :: c.journal }

def setInterrupts (c : Core L σ) (enabled : Bool) : Core L σ :=
  { c with interrupts := enabled }

def mask (c : Core L σ) : Core L σ :=
  (c.setInterrupts false).note .masked

def restore (c : Core L σ) (enabled : Bool) : Core L σ :=
  (c.setInterrupts (enabled || c.interrupts)).note (.restored enabled)

variable [DecidableEq L]

def isLocked (c : Core L σ) (l : L) : Bool := c.held.contains l

def acquire? (c : Core L σ) (l : L) : Option (Core L σ) :=
  if l ∈ c.held then none else some (note { c with held := l :: c.held } (.acquired l))

def release (c : Core L σ) (l : L) : Core L σ :=
  note { c with held := c.held.filter (· ≠ l) } (.released l)

def guardMask (c : Core L σ) : Guard L × Core L σ :=
  (.mask c.interrupts, c.mask)

/-- A guard on a free lock; on a held one this would wait forever, so there is none. -/
def guardLock? (c : Core L σ) (l : L) : Option (Guard L × Core L σ) :=
  (c.acquire? l).map fun c => (.lock l, c)

def guardMaskedLock? (c : Core L σ) (l : L) : Option (Guard L × Core L σ) :=
  (c.mask.acquire? l).map fun c' => (.maskedLock l c.interrupts, c')

/-- Tries to take a lock.  The guard is made before it is known whether the lock was free, and a
failed attempt gives it back at once: the lock is free afterwards. -/
def tryLock (c : Core L σ) (l : L) : Option (Guard L) × Core L σ :=
  match c.acquire? l with
  | some c => (some (.lock l), c)
  | none => (none, c.release l)

def giveBack (c : Core L σ) : Guard L → Core L σ
  | .mask enabled => c.restore enabled
  | .lock l => c.release l
  | .maskedLock l enabled => (c.release l).restore enabled

end Core

structure Keeper (L σ : Type) where
  core : Core L σ
  places : Array (Option (Guard L))

namespace Keeper
variable {L σ : Type} [DecidableEq L]

def start (places : Nat) (value : σ) : Keeper L σ :=
  ⟨.start value, Array.replicate places none⟩

def guardAt (k : Keeper L σ) (place : Nat) : Option (Guard L) :=
  (k.places[place]?).join

def drop (k : Keeper L σ) (place : Nat) : Bool × Keeper L σ :=
  match k.guardAt place with
  | none => (false, k)
  | some g => (true, ⟨k.core.giveBack g, k.places.setIfInBounds place none⟩)

def keep (k : Keeper L σ) (place : Nat) (made : Guard L × Core L σ) : Keeper L σ :=
  let (_, k) := drop { k with core := made.2 } place
  { k with places := k.places.setIfInBounds place (some made.1) }

end Keeper
end Ia32Memory
