import Ia32Memory.Proofs.Lock.Outcomes

/-! Brackets in order.
Locks have ranks.  A program is in order if it takes locks with interrupts masked only and from
lower to higher rank, and touches data only while it holds the locks on it.  Then a lock is held
only while interrupts are off, so an interrupt handler finds every lock free; and what the handler
does is in order, too.  So no program waits forever, wherever it is interrupted and however often,
and each leaves the flag and the locks as they were. -/

namespace Ia32Memory
variable {L σ ε : Type}

/-- How things are right after an act that is in order. -/
structure Moment.InOrder (rank : L → Nat) (m : Moment L) : Prop where
  masked : m.held ≠ [] → m.interrupts = false
  ascending : ∀ l, m.act = .acquired l →
    ∃ rest, m.held = l :: rest ∧ ∀ l' ∈ rest, rank l' < rank l
  covered : ∀ ls, m.act = .touched ls → ls ⊆ m.held

namespace Core
variable {rank : L → Nat} {c c' c'' : Core L σ} {l : L}

def Shielded (c : Core L σ) : Prop := c.held ≠ [] → c.interrupts = false

def Orderly (rank : L → Nat) (c c' : Core L σ) : Prop :=
  ∃ more, c'.journal = more ++ c.journal ∧ ∀ m ∈ more, m.InOrder rank

structure Settled (rank : L → Nat) (c c' : Core L σ) : Prop where
  held : c'.held = c.held
  interrupts : c'.interrupts = c.interrupts
  orderly : c.Orderly rank c'

theorem shielded_of_free (free : c.held = []) : c.Shielded := fun some_held => absurd free some_held

theorem Shielded.free (h : c.Shielded) (on : c.interrupts = true) : c.held = [] :=
  Classical.byContradiction fun some_held => Bool.false_ne_true ((h some_held).symm.trans on)

theorem shielded_of_masked (off : c.interrupts = false) : c.Shielded := fun _ => off

theorem Orderly.of_same (same : c'.journal = c.journal) : c.Orderly rank c' :=
  ⟨[], same, nofun⟩

theorem Orderly.trans (h : c.Orderly rank c') (h' : c'.Orderly rank c'') :
    c.Orderly rank c'' := by
  obtain ⟨first, e, ordered⟩ := h
  obtain ⟨second, e', ordered'⟩ := h'
  refine ⟨second ++ first, by rw [e', e, List.append_assoc], fun m mem => ?_⟩
  rcases List.mem_append.1 mem with late | early
  · exact ordered' m late
  · exact ordered m early

theorem Orderly.note {act : Act L} (h : c.Orderly rank c')
    (ordered : Moment.InOrder rank ⟨act, c'.interrupts, c'.held⟩) :
    c.Orderly rank (c'.note act) :=
  h.trans ⟨[_], rfl, fun _ mem => List.mem_singleton.1 mem ▸ ordered⟩

theorem Settled.refl (c : Core L σ) : c.Settled rank c := ⟨rfl, rfl, .of_same rfl⟩

theorem Settled.trans (h : c.Settled rank c') (h' : c'.Settled rank c'') : c.Settled rank c'' :=
  ⟨h'.held.trans h.held, h'.interrupts.trans h.interrupts, h.orderly.trans h'.orderly⟩

theorem Settled.shielded (h : c.Settled rank c') (shielded : c.Shielded) : c'.Shielded := by
  unfold Shielded
  rw [h.held, h.interrupts]
  exact shielded

theorem settled_perform {α : Type} (shielded : c.Shielded) {touches : List L}
    (covered : touches ⊆ c.held) (body : Bool → List L → EStateM ε σ α) :
    c.Settled rank (c.perform touches body).2 := by
  have noted : c.Orderly rank (c.note (.touched touches)) :=
    (Orderly.of_same rfl).note ⟨shielded, nofun, fun ls e => by cases e; exact covered⟩
  unfold perform
  dsimp only
  split
  · exact ⟨rfl, rfl, noted⟩
  · exact ⟨rfl, rfl, noted⟩

theorem Settled.restore (shielded : c.Shielded) (h : c.mask.Settled rank c') :
    c.Settled rank (c'.restore c.interrupts) := by
  have flag : (c.interrupts || c'.interrupts) = c.interrupts := by
    rw [h.interrupts]
    exact Bool.or_false _
  have unmasked : c.Orderly rank (c.setInterrupts false) := .of_same rfl
  have masked : c.Orderly rank c.mask := unmasked.note ⟨fun _ => rfl, nofun, nofun⟩
  have reset : c'.Orderly rank (c'.setInterrupts (c.interrupts || c'.interrupts)) := .of_same rfl
  have restored : c'.Orderly rank (c'.restore c.interrupts) :=
    reset.note ⟨fun some_held => flag.trans (shielded (h.held ▸ some_held)), nofun, nofun⟩
  exact ⟨h.held, flag, masked.trans (h.orderly.trans restored)⟩

variable [DecidableEq L]

theorem Settled.release (off : c.interrupts = false) (above : ∀ l' ∈ c.held, rank l' < rank l)
    (h : (c.holding l).Settled rank c') : c.Settled rank (c'.release l) := by
  have free : l ∉ c.held := fun held => Nat.lt_irrefl _ (above l held)
  have more : c.Orderly rank { c with held := l :: c.held } := .of_same rfl
  have taken : c.Orderly rank (c.holding l) :=
    more.note ⟨fun _ => off, fun _ e => by cases e; exact ⟨_, rfl, above⟩, nofun⟩
  have fewer : c'.Orderly rank { c' with held := c'.held.filter (· ≠ l) } := .of_same rfl
  have released : c'.Orderly rank (c'.release l) :=
    fewer.note ⟨fun _ => h.interrupts.trans off, nofun, nofun⟩
  exact ⟨Core.held_release free h.held, h.interrupts, taken.trans (h.orderly.trans released)⟩

end Core

/-- In order, when the flag is known to be off or not, and these locks are held. -/
def Critical.Bracketed (rank : L → Nat) {α : Type} :
    Critical L σ ε α → Bool → List L → Prop
  | .done _, _, _ => True
  | .step touches _, _, held => touches ⊆ held
  | .andThen first next, off, held =>
    first.Bracketed rank off held ∧ ∀ b, (next b).Bracketed rank off held
  | .masked body, _, held => body.Bracketed rank true held
  | .locked l body, off, held =>
    off = true ∧ (∀ l' ∈ held, rank l' < rank l) ∧ body.Bracketed rank off (l :: held)

namespace Outcomes
variable {rank : L → Nat} {c : Core L σ} {pause : Outcomes L σ Unit}

def Harmless (rank : L → Nat) (pause : Outcomes L σ Unit) : Prop :=
  ∀ c : Core L σ, c.Shielded → Surely pause c fun _ c' => c.Settled rank c'

theorem harmless_pure : Harmless rank (pure () : Outcomes L σ Unit) :=
  fun c _ => Surely.pure (.refl c)

theorem Harmless.repeated (h : Harmless rank pause) : Harmless rank (Repeated pause) := by
  intro c shielded
  refine Surely.repeated (I := c.Settled rank) (fun c' before => ?_) (.refl c)
  exact (h c' (before.shielded shielded)).mono fun _ _ => before.trans

theorem Harmless.surely_closed (harmless : Harmless rank pause) {α : Type}
    {inside : Outcomes L σ α} {close : Core L σ → Core L σ} {Q : Core L σ → Prop}
    (shielded : c.Shielded) (settles : Surely inside c fun _ c' => c.Settled rank c')
    (closed : ∀ c', c.Settled rank c' → Q (close c')) :
    Surely (do
      let result ← inside
      pause
      act close
      return result) c fun _ => Q := by
  refine settles.bind fun result c₁ settled => ?_
  refine (harmless c₁ (settled.shielded shielded)).bind fun _ c₂ last => Surely.certain_bind ?_
  exact Surely.pure (closed c₂ (settled.trans last))

def handled (handler : Outcomes L σ Unit) : Outcomes L σ Unit := fun c o =>
  c.interrupts = true ∧ ∃ enabled, (do
    act fun c => c.setInterrupts enabled
    handler
    act fun c => c.setInterrupts true : Outcomes L σ Unit) c o

/-- A handler that is safe when every lock is free: that is how it finds them. -/
theorem Harmless.handled {handler : Outcomes L σ Unit}
    (safe : ∀ c : Core L σ, c.held = [] →
      Surely handler c fun _ c' => c'.held = [] ∧ c.Orderly rank c') :
    Harmless rank (handled handler) := by
  rintro c shielded o ⟨on, enabled, ended⟩
  have free : c.held = [] := shielded.free on
  have started := safe (c.setInterrupts enabled) free
  refine Surely.certain_bind (started.bind fun _ c₁ done => Surely.certain ?_) o ended
  exact ⟨done.1.trans free.symm, on.symm, done.2⟩

variable [DecidableEq L]

/-- A program in order never waits forever and leaves the flag and the locks as they were, whether
it returns or is stopped. -/
theorem Harmless.surely_ends (harmless : Harmless rank pause) {α : Type} {p : Critical L σ ε α}
    {off : Bool} {held : List L} (bracketed : p.Bracketed rank off held) (there : c.held = held)
    (masked : off = true → c.interrupts = false) (shielded : c.Shielded) :
    Surely (p.ends pause) c fun _ c' => c.Settled rank c' := by
  induction p generalizing c off held with
  | done a => exact Surely.pure (.refl c)
  | step touches body =>
    refine (harmless c shielded).bind fun _ c₁ paused => Surely.certain ?_
    have covered : touches ⊆ c₁.held := by
      rw [paused.held, there]
      exact bracketed
    exact paused.trans (Core.settled_perform (paused.shielded shielded) covered body)
  | andThen first next ihFirst ihNext =>
    unfold Critical.ends
    refine (ihFirst bracketed.1 there masked shielded).bind fun result c₁ before => ?_
    cases result with
    | ok b =>
      have goes_on := ihNext b (bracketed.2 b) (before.held.trans there)
        (fun off => before.interrupts.trans (masked off)) (before.shielded shielded)
      exact goes_on.mono fun _ _ => before.trans
    | error e => exact Surely.pure before
  | masked body ih =>
    refine (harmless c shielded).bind fun _ c₁ paused => Surely.certain_bind ?_
    have shielded₁ := paused.shielded shielded
    refine (harmless c₁ shielded₁).bind fun _ c₂ again => Surely.certain_bind ?_
    have off₂ : c₂.mask.Shielded := Core.shielded_of_masked rfl
    have there₂ : c₂.mask.held = held := again.held.trans (paused.held.trans there)
    have inside := ih bracketed there₂ (fun _ => rfl) off₂
    refine harmless.surely_closed off₂ inside fun c₃ settled => ?_
    rw [← again.interrupts]
    exact paused.trans (again.trans (settled.restore (again.shielded shielded₁)))
  | locked l body ih =>
    obtain ⟨rfl, above, bracketed⟩ := bracketed
    refine (harmless c shielded).bind fun _ c₁ paused => ?_
    have off₁ : c₁.interrupts = false := paused.interrupts.trans (masked rfl)
    -- On the way in each lock ranks above those that are held, so it is none of them.
    have above₁ : ∀ l' ∈ c₁.held, rank l' < rank l := by
      rw [paused.held, there]
      exact above
    have free : l ∉ c₁.held := fun held => Nat.lt_irrefl _ (above₁ l held)
    refine Surely.acquire_bind free ?_
    have off₂ : (c₁.holding l).Shielded := Core.shielded_of_masked off₁
    have there₂ : (c₁.holding l).held = l :: held := congrArg _ (paused.held.trans there)
    have inside := ih bracketed there₂ (fun _ => off₁) off₂
    refine harmless.surely_closed off₂ inside fun c₂ settled => ?_
    exact paused.trans (settled.release off₁ above₁)

variable {calls : (α : Type) → Critical L σ ε α → Prop}

def anyOf (calls : (α : Type) → Critical L σ ε α → Prop) (pause : Outcomes L σ Unit) :
    Outcomes L σ Unit := fun c o =>
  (∃ α call, calls α call ∧ (call.ends pause >>= fun _ => pure ()) c o) ∨
    ∃ enabled, act (fun c => c.setInterrupts enabled) c o

def program (calls : (α : Type) → Critical L σ ε α → Prop) (pause : Outcomes L σ Unit) :
    Outcomes L σ Unit :=
  Repeated (anyOf calls pause)

/-- A pause in which handlers may come, and into these, handlers, and so on to some depth. -/
def pauseAt (calls : (α : Type) → Critical L σ ε α → Prop) : Nat → Outcomes L σ Unit
  | 0 => pure ()
  | depth + 1 => Repeated (handled (program calls (pauseAt calls depth)))

theorem Harmless.surely_program (harmless : Harmless rank pause)
    (bracketed : ∀ α call, calls α call → call.Bracketed rank false []) (free : c.held = []) :
    Surely (program calls pause) c fun _ c' => c'.held = [] ∧ c.Orderly rank c' := by
  refine Surely.repeated (I := fun c' => c'.held = [] ∧ c.Orderly rank c') ?_ ⟨free, .of_same rfl⟩
  rintro c₁ ⟨free₁, before⟩ o (⟨α, call, mem, ended⟩ | ⟨enabled, ended⟩)
  · have settles := harmless.surely_ends (bracketed α call mem) free₁ nofun
      (Core.shielded_of_free free₁)
    refine (settles.bind fun _ c₂ settled => Surely.pure ?_) o ended
    exact ⟨settled.held.trans free₁, before.trans settled.orderly⟩
  · exact ⟨_, _, ended, free₁, before.trans (.of_same rfl)⟩

theorem harmless_pauseAt (bracketed : ∀ α call, calls α call → call.Bracketed rank false [])
    (depth : Nat) : Harmless rank (pauseAt calls depth) := by
  induction depth with
  | zero => exact harmless_pure
  | succ depth ih =>
    exact (Harmless.handled fun _ free => ih.surely_program bracketed free).repeated

end Outcomes
end Ia32Memory
