import Ia32Memory.Proofs.Lock.Exclusion
import Ia32Memory.Proofs.Lock.Outcomes

/-! Brackets nest.
A scope keeps a guard while its body runs and gives it back when the body ends, by returning or by
being stopped.  A program may nest scopes as it likes, in any order of locks, and start from any
flag; all that is asked is that it takes no lock that is held.  Then each scope leaves the flag and
the locks as it found them, whichever way its body ends, and what was done to the data stays.  In a
scope that masks, interrupts are off until its guard is given back, and one that also holds a lock
is never seen to hold it with interrupts on: the flag goes first on the way in, and last on the way
out. -/

namespace Ia32Memory
variable {L σ ε : Type}

inductive Bracket (L : Type)
  | mask
  | lock (lock : L)
  | maskedLock (lock : L)
  deriving DecidableEq

namespace Core
variable {c c' c'' : Core L σ} {P Q : Moment L → Prop}

def Since (c : Core L σ) (P : Moment L → Prop) (c' : Core L σ) : Prop :=
  ∃ more, c'.journal = more ++ c.journal ∧ ∀ m ∈ more, P m

theorem Since.of_same (same : c'.journal = c.journal) : c.Since P c' :=
  ⟨[], same, List.forall_mem_nil _⟩

theorem Since.trans (h : c.Since P c') (h' : c'.Since P c'') : c.Since P c'' := by
  obtain ⟨early, e, holds⟩ := h
  obtain ⟨late, e', holds'⟩ := h'
  refine ⟨late ++ early, by rw [e', e, List.append_assoc], fun m mem => ?_⟩
  rcases List.mem_append.1 mem with mem | mem
  · exact holds' m mem
  · exact holds m mem

theorem Since.mono (h : c.Since P c') (weaker : ∀ m, P m → Q m) : c.Since Q c' := by
  obtain ⟨more, e, holds⟩ := h
  exact ⟨more, e, fun m mem => weaker m (holds m mem)⟩

theorem Since.note {act : Act L} (h : c.Since P c') (holds : P ⟨act, c'.interrupts, c'.held⟩) :
    c.Since P (c'.note act) :=
  h.trans ⟨[_], rfl, List.forall_mem_singleton.2 holds⟩

structure Balanced (c c' : Core L σ) : Prop where
  interrupts : c'.interrupts = c.interrupts
  held : c'.held = c.held
  off : c.Since (fun m => c.interrupts = false → m.interrupts = false) c'

theorem Balanced.refl (c : Core L σ) : c.Balanced c := ⟨rfl, rfl, .of_same rfl⟩

theorem Balanced.trans (h : c.Balanced c') (h' : c'.Balanced c'') : c.Balanced c'' := by
  have later := h'.off
  rw [h.interrupts] at later
  exact ⟨h'.interrupts.trans h.interrupts, h'.held.trans h.held, h.off.trans later⟩

theorem Balanced.all_off (h : c.Balanced c') (off : c.interrupts = false) :
    c.Since (·.interrupts = false) c' :=
  h.off.mono fun _ holds => holds off

theorem balanced_touched (c : Core L σ) (touches : List L) (value : σ) :
    c.Balanced { c.note (.touched touches) with value } :=
  ⟨rfl, rfl, (Since.of_same rfl : c.Since _ c).note id⟩

theorem since_mask (c : Core L σ) : c.Since (·.interrupts = false) c.mask := by
  have unmasked : c.Since (·.interrupts = false) (c.setInterrupts false) := .of_same rfl
  exact unmasked.note rfl

theorem Balanced.restore (h : c.mask.Balanced c') : c.Balanced (c'.restore c.interrupts) := by
  have flag : (c.interrupts || c'.interrupts) = c.interrupts := by
    rw [h.interrupts]
    exact Bool.or_false _
  have inside : c.Since (·.interrupts = false) c' := (since_mask c).trans (h.all_off rfl)
  have reset : c.Since (fun m => c.interrupts = false → m.interrupts = false)
      (c'.setInterrupts (c.interrupts || c'.interrupts)) := inside.mono fun _ off _ => off
  exact ⟨flag, h.held, reset.note flag.trans⟩

theorem since_holding (c : Core L σ) (l : L) :
    c.Since (fun m => c.interrupts = false → m.interrupts = false) (c.holding l) := by
  have more : c.Since (fun m => c.interrupts = false → m.interrupts = false)
      { c with held := l :: c.held } := .of_same rfl
  exact more.note id

variable [DecidableEq L] {l : L}

theorem Balanced.release (free : l ∉ c.held) (h : (c.holding l).Balanced c') :
    c.Balanced (c'.release l) := by
  have fewer : c.Since (fun m => c.interrupts = false → m.interrupts = false)
      { c' with held := c'.held.filter (· ≠ l) } := (since_holding c l).trans h.off
  exact ⟨h.interrupts, held_release free h.held, fewer.note h.interrupts.trans⟩

end Core

def Exit.result? {α : Type} : Exit ε α → σ → Option (EStateM.Result ε σ α)
  | returned a, value => some (.ok a value)
  | stopped e, value => some (.error e value)
  | waiting, _ => none

namespace Bracket
variable {α : Type}

def lock? : Bracket L → Option L
  | mask => none
  | lock l => some l
  | maskedLock l => some l

def masks : Bracket L → Bool
  | mask => true
  | lock _ => false
  | maskedLock _ => true

def around (b : Bracket L) (body : Critical L σ ε α) : Critical L σ ε α :=
  match b with
  | mask => .masked body
  | lock l => .locked l body
  | maskedLock l => .maskedLocked l body

def take? [DecidableEq L] (b : Bracket L) (c : Core L σ) : Option (Guard L × Core L σ) :=
  match b with
  | mask => some c.guardMask
  | lock l => c.guardLock? l
  | maskedLock l => c.guardMaskedLock? l

end Bracket

namespace Critical
variable {α β : Type}

/-- What the steps do to the data, told without brackets.  A step that is stopped leaves what it
has done, and the steps after it are not made. -/
def plain {α : Type} : Critical L σ ε α → Bool → List L → EStateM ε σ α
  | .done a, _, _ => pure a
  | .step _ body, interrupts, held => body interrupts held
  | .andThen first next, interrupts, held =>
    first.plain interrupts held >>= fun b => (next b).plain interrupts held
  | .masked body, _, held => body.plain false held
  | .locked l body, interrupts, held => body.plain interrupts (l :: held)

section Plain
variable {first : Critical L σ ε β} {next : β → Critical L σ ε α} {interrupts : Bool}
  {held : List L} {value value' : σ}

theorem plain_andThen_ok {b : β} (came : first.plain interrupts held value = .ok b value') :
    (andThen first next).plain interrupts held value = (next b).plain interrupts held value' := by
  show EStateM.bind _ _ value = _
  unfold EStateM.bind
  rw [came]

theorem plain_andThen_error {e : ε}
    (came : first.plain interrupts held value = .error e value') :
    (andThen first next).plain interrupts held value = .error e value' := by
  show EStateM.bind _ _ value = _
  unfold EStateM.bind
  rw [came]

end Plain

variable [DecidableEq L]

/-- In its run from this core the program takes no lock that is held. -/
def TakesFree {α : Type} : Critical L σ ε α → Core L σ → Prop
  | .done _, _ => True
  | .step _ _, _ => True
  | .andThen first next, c =>
    first.TakesFree c ∧ ∀ b c', first.run id c = (.returned b, c') → (next b).TakesFree c'
  | .masked body, c => body.TakesFree c.mask
  | .locked l body, c => l ∉ c.held ∧ body.TakesFree (c.holding l)

inductive Reaches (part : Critical L σ ε β) (d : Core L σ) :
    {α : Type} → Critical L σ ε α → Core L σ → Prop
  | here : Reaches part d part d
  | first {α γ : Type} {first : Critical L σ ε γ} {next : γ → Critical L σ ε α} {c : Core L σ} :
      Reaches part d first c → Reaches part d (.andThen first next) c
  | next {α γ : Type} {first : Critical L σ ε γ} {next : γ → Critical L σ ε α} {c c' : Core L σ}
      {a : γ} : first.run id c = (.returned a, c') → Reaches part d (next a) c' →
      Reaches part d (.andThen first next) c
  | masked {α : Type} {body : Critical L σ ε α} {c : Core L σ} :
      Reaches part d body c.mask → Reaches part d (.masked body) c
  | locked {α : Type} {body : Critical L σ ε α} {l : L} {c c' : Core L σ} :
      c.acquire? l = some c' → Reaches part d body c' → Reaches part d (.locked l body) c

theorem Reaches.takesFree {part : Critical L σ ε β} {d c : Core L σ} {p : Critical L σ ε α}
    (reached : part.Reaches d p c) (free : p.TakesFree c) : part.TakesFree d := by
  induction reached with
  | here => exact free
  | first _ ih => exact ih free.1
  | next ran _ ih => exact ih (free.2 _ _ ran)
  | masked _ ih => exact ih free
  | locked taken _ ih =>
    rw [Core.acquire?_of_free free.1] at taken
    cases taken
    exact ih free.2

/-- The run does to the data what the steps do, ends as they end, and leaves the rest alone. -/
structure Plays (p : Critical L σ ε α) (c : Core L σ) : Prop where
  ended : (p.run id c).1.result? (p.run id c).2.value =
    some (p.plain c.interrupts c.held c.value)
  balanced : c.Balanced (p.run id c).2

theorem Plays.ends {p : Critical L σ ε α} {c : Core L σ} (h : p.Plays c) :
    (p.run id c).1 ≠ .waiting := by
  intro waits
  have ended := h.ended
  rw [waits] at ended
  exact nomatch ended

theorem plays_of_ran {p : Critical L σ ε α} {c c' : Core L σ} {exit : Exit ε α}
    (ran : p.run id c = (exit, c'))
    (ended : exit.result? c'.value = some (p.plain c.interrupts c.held c.value))
    (balanced : c.Balanced c') : p.Plays c := by
  refine ⟨?_, ?_⟩
  · rw [ran]
    exact ended
  · rw [ran]
    exact balanced

theorem run_step_ok {body : Bool → List L → EStateM ε σ α} {c : Core L σ} {a : α} {value : σ}
    (touches : List L) (came : body c.interrupts c.held c.value = .ok a value) :
    run id (.step touches body) c =
      (.returned a, { c.note (.touched touches) with value }) := by
  rw [run]
  simp only [id_eq, Core.note, came]

theorem run_step_error {body : Bool → List L → EStateM ε σ α} {c : Core L σ} {e : ε} {value : σ}
    (touches : List L) (came : body c.interrupts c.held c.value = .error e value) :
    run id (.step touches body) c =
      (.stopped e, { c.note (.touched touches) with value }) := by
  rw [run]
  simp only [id_eq, Core.note, came]

theorem run_andThen_returned {first : Critical L σ ε β} {next : β → Critical L σ ε α}
    {c c' : Core L σ} {b : β} (ran : first.run id c = (.returned b, c')) :
    (andThen first next).run id c = (next b).run id c' := by
  rw [run, ran]

theorem run_andThen_stopped {first : Critical L σ ε β} {next : β → Critical L σ ε α}
    {c c' : Core L σ} {e : ε} (ran : first.run id c = (.stopped e, c')) :
    (andThen first next).run id c = (.stopped e, c') := by
  rw [run, ran]

theorem run_masked {body : Critical L σ ε α} {c c' : Core L σ} {exit : Exit ε α}
    (ran : body.run id c.mask = (exit, c')) (ends : exit ≠ .waiting) :
    (masked body).run id c = (exit, c'.restore c.interrupts) := by
  rw [run]
  simp only [id_eq, ran]

theorem run_locked {body : Critical L σ ε α} {c c' : Core L σ} {l : L} {exit : Exit ε α}
    (free : l ∉ c.held) (ran : body.run id (c.holding l) = (exit, c')) (ends : exit ≠ .waiting) :
    (locked l body).run id c = (exit, c'.release l) := by
  rw [run]
  simp only [id_eq, Core.acquire?_of_free free, ran]

theorem TakesFree.plays {p : Critical L σ ε α} {c : Core L σ} (free : p.TakesFree c) :
    p.Plays c := by
  -- What becomes of the data is carried by `plain`, the flag and the locks by `Balanced`.
  induction p generalizing c with
  | done a => exact ⟨rfl, .refl c⟩
  | step touches body =>
    cases came : body c.interrupts c.held c.value with
    | ok a value =>
      exact plays_of_ran (run_step_ok touches came) (congrArg some came.symm)
        (Core.balanced_touched c touches value)
    | error e value =>
      exact plays_of_ran (run_step_error touches came) (congrArg some came.symm)
        (Core.balanced_touched c touches value)
  | andThen first next ihFirst ihNext =>
    obtain ⟨free, goes_on⟩ := free
    obtain ⟨ended, balanced⟩ := ihFirst free
    generalize began : first.run id c = ran at ended balanced
    rcases ran with ⟨b | e | -, c'⟩
    · have later := ihNext b (goes_on b c' began)
      have came : first.plain c.interrupts c.held c.value = .ok b c'.value :=
        (Option.some.inj ended).symm
      refine plays_of_ran (run_andThen_returned began) ?_ (balanced.trans later.balanced)
      rw [plain_andThen_ok came, ← balanced.interrupts, ← balanced.held]
      exact later.ended
    · have came : first.plain c.interrupts c.held c.value = .error e c'.value :=
        (Option.some.inj ended).symm
      refine plays_of_ran (run_andThen_stopped began) ?_ balanced
      rw [plain_andThen_error came]
      rfl
    · exact nomatch ended
  | masked body ih =>
    have inside := ih free
    exact plays_of_ran (run_masked rfl inside.ends) inside.ended inside.balanced.restore
  | locked l body ih =>
    have inside := ih free.2
    exact plays_of_ran (run_locked free.1 rfl inside.ends) inside.ended
      (inside.balanced.release free.1)

end Critical

namespace Bracket
variable {α : Type} [DecidableEq L] {b : Bracket L} {body : Critical L σ ε α}
  {c last : Core L σ} {g : Guard L} {l : L}

structure Nests (b : Bracket L) (c : Core L σ) (g : Guard L) (last : Core L σ) : Prop where
  interrupts : (last.giveBack g).interrupts = c.interrupts
  held : (last.giveBack g).held = c.held
  unlocked : ∀ l, b.lock? = some l → (last.giveBack g).isLocked l = false
  value : (last.giveBack g).value = last.value
  masked : b.masks = true → c.Since (·.interrupts = false) last
  shielded : ∀ l, b = .maskedLock l →
    c.Since (fun m => l ∈ m.held → m.interrupts = false) (last.giveBack g)

/-- The scope is entered and left: it is what becomes of a guard that is taken, the body, and the
guard given back, whether the body returns or is stopped. -/
def Scoped (b : Bracket L) (body : Critical L σ ε α) (c : Core L σ) : Prop :=
  ∃ g inside exit last, b.take? c = some (g, inside) ∧ body.run id inside = (exit, last) ∧
    exit ≠ .waiting ∧ (b.around body).run id c = (exit, last.giveBack g) ∧ b.Nests c g last

theorem nests_mask (inside : c.mask.Balanced last) :
    Nests .mask c (.mask c.interrupts) last where
  interrupts := inside.restore.interrupts
  held := inside.restore.held
  unlocked := nofun
  value := rfl
  masked _ := (Core.since_mask c).trans (inside.all_off rfl)
  shielded := nofun

theorem nests_lock (free : l ∉ c.held) (inside : (c.holding l).Balanced last) :
    Nests (.lock l) c (.lock l) last where
  interrupts := (inside.release free).interrupts
  held := (inside.release free).held
  unlocked l' same := by
    cases same
    refine Bool.eq_false_iff.2 fun locked => free ?_
    rw [← (inside.release free).held]
    exact Core.isLocked_iff.1 locked
  value := rfl
  masked := nofun
  shielded := nofun

theorem nests_maskedLock (free : l ∉ c.held) (inside : (c.mask.holding l).Balanced last) :
    Nests (.maskedLock l) c (.maskedLock l c.interrupts) last := by
  have released : c.mask.Balanced (last.release l) := inside.release free
  have left := released.restore
  have unheld : l ∉ ((last.release l).restore c.interrupts).held := by
    rw [left.held]
    exact free
  have off : c.Since (·.interrupts = false) (last.release l) :=
    (Core.since_mask c).trans (released.all_off rfl)
  refine ⟨left.interrupts, left.held, fun l' same => ?_, rfl, fun _ => ?_, fun l' same => ?_⟩
  · cases same
    exact Bool.eq_false_iff.2 fun locked => unheld (Core.isLocked_iff.1 locked)
  · have taken : c.mask.Since (·.interrupts = false) (c.mask.holding l) :=
      (Core.since_holding c.mask l).mono fun _ still => still rfl
    exact (Core.since_mask c).trans (taken.trans (inside.all_off rfl))
  · cases same
    -- interrupts may come on with the last act, but then the lock is free
    have shielded : c.Since (fun m => l ∈ m.held → m.interrupts = false)
        ((last.release l).setInterrupts (c.interrupts || (last.release l).interrupts)) :=
      off.mono fun _ off _ => off
    exact shielded.note fun held => absurd held unheld

theorem scoped_of_takesFree (free : (b.around body).TakesFree c) : b.Scoped body c := by
  cases b with
  | mask =>
    have inside : body.Plays c.mask := Critical.TakesFree.plays free
    exact ⟨_, _, _, _, rfl, rfl, inside.ends, Critical.run_masked rfl inside.ends,
      nests_mask inside.balanced⟩
  | lock l =>
    have inside := Critical.TakesFree.plays free.2
    have taken : take? (.lock l) c = some (.lock l, c.holding l) :=
      congrArg (Option.map _) (Core.acquire?_of_free free.1)
    exact ⟨_, _, _, _, taken, rfl, inside.ends, Critical.run_locked free.1 rfl inside.ends,
      nests_lock free.1 inside.balanced⟩
  | maskedLock l =>
    have inside := Critical.TakesFree.plays free.2
    have taken : take? (.maskedLock l) c =
        some (.maskedLock l c.interrupts, c.mask.holding l) :=
      congrArg (Option.map _) (Core.acquire?_of_free free.1)
    have locked := Critical.run_locked free.1 rfl inside.ends
    exact ⟨_, _, _, _, taken, rfl, inside.ends, Critical.run_masked locked inside.ends,
      nests_maskedLock free.1 inside.balanced⟩

end Bracket

namespace Critical
variable {α : Type} [DecidableEq L]

/-- Whatever scopes a program nests, in its run each of them is left as it was entered, with its
lock free, whether its body returned or was stopped; all that the steps did to the data is there at
the end. -/
theorem brackets_nest {p : Critical L σ ε α} {c : Core L σ} (free : p.TakesFree c) :
    p.Plays c ∧ ∀ (β : Type) (b : Bracket L) (body : Critical L σ ε β) (d : Core L σ),
      (b.around body).Reaches d p c → b.Scoped body d :=
  ⟨free.plays, fun _ _ _ _ reached => Bracket.scoped_of_takesFree (reached.takesFree free)⟩

def interrupted : Critical (Fin 2) Nat Unit Unit :=
  .masked do
    .touch [] (modify (· + 1))
    .maskedLocked 0 do
      .touch [0] (modify (· + 2))
      .locked 1 (.touch [1] do
        modify (· + 4)
        throw ())
    .touch [] (modify (· + 8))

theorem brackets_nest_small :
    interrupted.TakesFree (.start 0) ∧ interrupted.plain true [] 0 = .error () 7 ∧
      interrupted.Plays (.start 0) ∧
      ∀ (β : Type) (b : Bracket (Fin 2)) (body : Critical (Fin 2) Nat Unit β)
        (d : Core (Fin 2) Nat),
        (b.around body).Reaches d interrupted (.start 0) → b.Scoped body d := by
  have free : interrupted.TakesFree (.start 0) := by
    refine ⟨trivial, fun _ _ ran => ⟨⟨?_, trivial, fun _ _ ran' => ⟨?_, trivial⟩⟩, ?_⟩⟩
    · cases ran
      decide
    · cases ran
      cases ran'
      decide
    · intro _ _ ran'
      trivial
  exact ⟨free, rfl, brackets_nest free⟩

end Critical
end Ia32Memory
