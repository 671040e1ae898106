import Mathlib.Logic.ExistsUnique
import Ia32Memory.Kernel.Access

/-! Mutual exclusion, and what takes it away.
Guards are made and given back in any order, by whoever keeps them.  A lock is held exactly while
there is a guard on it, and there is never a second one, as long as each attempt on a lock finds it
free.  An attempt that finds the lock held releases it, and so leaves a guard behind that guards
nothing; that is all that can go wrong.  Even then a lock that is held has a guard on it. -/

namespace Ia32Memory
variable {L σ : Type}

namespace Core
variable {c c' : Core L σ} {g : Guard L} {l l' : L} {made : Guard L × Core L σ}

structure Made (c : Core L σ) (made : Guard L × Core L σ) : Prop where
  free : ∀ l, made.1.lock? = some l → l ∉ c.held
  held : ∀ l, l ∈ made.2.held ↔ l ∈ c.held ∨ made.1.lock? = some l

theorem made_guardMask (c : Core L σ) : c.Made c.guardMask :=
  ⟨nofun, fun l => by simp [guardMask, mask, note, setInterrupts, Guard.lock?]⟩

variable [DecidableEq L]

theorem isLocked_iff : c.isLocked l = true ↔ l ∈ c.held := List.contains_iff_mem

theorem mem_held_release : l' ∈ (c.release l).held ↔ l' ∈ c.held ∧ l' ≠ l := by
  simp [release, note]

theorem mem_held_giveBack : l ∈ (c.giveBack g).held ↔ l ∈ c.held ∧ g.lock? ≠ some l := by
  cases g with
  | mask enabled => simp [giveBack, restore, note, setInterrupts, Guard.lock?]
  | lock l' => simp [giveBack, mem_held_release, Guard.lock?, eq_comm]
  | maskedLock l' enabled =>
    have same : ((c.release l').restore enabled).held = (c.release l').held := rfl
    simp [giveBack, same, mem_held_release, Guard.lock?, eq_comm]

theorem made_of_acquire? (same : c'.held = c.held) (on : g.lock? = some l) {taken : Core L σ}
    (acquired : c'.acquire? l = some taken) : c.Made (g, taken) := by
  unfold acquire? at acquired
  split at acquired
  · exact nomatch acquired
  · rename_i free
    cases acquired
    refine ⟨fun l' there => ?_, fun l' => ?_⟩
    · cases on.symm.trans there
      rwa [← same]
    · simp [note, same, on, or_comm, eq_comm]

theorem made_of_guardLock? (taken : c.guardLock? l = some made) : c.Made made := by
  obtain ⟨c', acquired, rfl⟩ := Option.map_eq_some_iff.1 taken
  exact made_of_acquire? rfl rfl acquired

theorem made_of_guardMaskedLock? (taken : c.guardMaskedLock? l = some made) : c.Made made := by
  obtain ⟨c', acquired, rfl⟩ := Option.map_eq_some_iff.1 taken
  have same : c.mask.held = c.held := rfl
  exact made_of_acquire? same rfl acquired

theorem tryLock_cases (c : Core L σ) (l : L) :
    (l ∉ c.held ∧ ∃ g taken, c.tryLock l = (some g, taken) ∧ c.Made (g, taken)) ∨
      (l ∈ c.held ∧ c.tryLock l = (none, c.release l)) := by
  unfold tryLock
  by_cases held : l ∈ c.held
  · have refused : c.acquire? l = none := if_pos held
    exact Or.inr ⟨held, by rw [refused]⟩
  · obtain ⟨taken, acquired⟩ : ∃ taken, c.acquire? l = some taken := ⟨_, if_neg held⟩
    exact Or.inl ⟨held, .lock l, taken, by rw [acquired], made_of_acquire? rfl rfl acquired⟩

end Core

namespace Keeper
variable {k k' : Keeper L σ} {g : Guard L} {l : L} {p q place : Nat} {made : Guard L × Core L σ}

def Live (k : Keeper L σ) (place : Nat) (l : L) : Prop :=
  ∃ g, k.guardAt place = some g ∧ g.lock? = some l

def Guarded (k : Keeper L σ) : Prop :=
  ∀ l ∈ k.core.held, ∃ place, k.Live place l

/-- Each lock that is held has one guard on it, and each lock that is free has none. -/
structure Exclusive (k : Keeper L σ) : Prop where
  once : ∀ l p q, k.Live p l → k.Live q l → p = q
  held : ∀ l, l ∈ k.core.held ↔ ∃ place, k.Live place l

theorem Exclusive.guarded (h : k.Exclusive) : k.Guarded :=
  fun l => (h.held l).1

theorem guarded_start (places : Nat) (value : σ) : (start places value : Keeper L σ).Guarded :=
  fun _ mem => absurd mem List.not_mem_nil

theorem exclusive_start (places : Nat) (value : σ) :
    (start places value : Keeper L σ).Exclusive := by
  have nothing : ∀ p, (start places value : Keeper L σ).guardAt p = none := by
    intro p
    simp only [start, guardAt, Array.getElem?_replicate]
    split <;> rfl
  have dead : ∀ p l, ¬(start places value : Keeper L σ).Live p l := by
    rintro p l ⟨g, there, -⟩
    exact nomatch (nothing p).symm.trans there
  refine ⟨fun l p _ there => absurd there (dead p l), fun l => ?_⟩
  exact iff_of_false List.not_mem_nil fun ⟨p, there⟩ => dead p l there

theorem guardAt_set (inside : place < k.places.size) (v : Option (Guard L)) (c : Core L σ) :
    guardAt ⟨c, k.places.setIfInBounds place v⟩ q = if q = place then v else k.guardAt q := by
  unfold guardAt
  rw [Array.getElem?_setIfInBounds]
  by_cases same : place = q
  · subst same
    simp [inside]
  · rw [if_neg same, if_neg (Ne.symm same)]

variable [DecidableEq L]

theorem guardAt_drop (inside : place < k.places.size) :
    (k.drop place).2.guardAt q = if q = place then none else k.guardAt q := by
  unfold drop
  cases there : k.guardAt place with
  | none =>
    by_cases same : q = place
    · rw [if_pos same, same]
      exact there
    · rw [if_neg same]
  | some g => exact guardAt_set inside none _

theorem mem_held_drop : l ∈ (k.drop place).2.core.held ↔ l ∈ k.core.held ∧ ¬k.Live place l := by
  unfold drop Live
  cases there : k.guardAt place with
  | none => simp
  | some g => simp [Core.mem_held_giveBack]

theorem guardAt_keep (inside : place < k.places.size) :
    (k.keep place made).guardAt q = if q = place then some made.1 else k.guardAt q := by
  have size : ∀ k' : Keeper L σ, (k'.drop place).2.places.size = k'.places.size := by
    intro k'
    unfold drop
    split <;> simp
  have rest := guardAt_drop (k := { k with core := made.2 }) (q := q) inside
  have room : place < (drop { k with core := made.2 } place).2.places.size := by
    rw [size]
    exact inside
  refine (guardAt_set room _ _).trans ?_
  by_cases same : q = place
  · rw [if_pos same, if_pos same]
  · rw [if_neg same, if_neg same]
    rwa [if_neg same] at rest

theorem mem_held_keep : l ∈ (k.keep place made).core.held ↔ l ∈ made.2.held ∧ ¬k.Live place l :=
  mem_held_drop (k := { k with core := made.2 })

theorem live_keep (inside : place < k.places.size) : (k.keep place made).Live q l ↔
    if q = place then made.1.lock? = some l else k.Live q l := by
  unfold Live
  rw [guardAt_keep inside]
  split <;> simp

theorem live_drop (inside : place < k.places.size) :
    (k.drop place).2.Live q l ↔ q ≠ place ∧ k.Live q l := by
  unfold Live
  rw [guardAt_drop inside]
  by_cases same : q = place
  · simp [same]
  · simp [same]

theorem Guarded.drop (h : k.Guarded) (inside : place < k.places.size) :
    (k.drop place).2.Guarded := by
  intro l held
  obtain ⟨was, gone⟩ := mem_held_drop.1 held
  obtain ⟨p, there⟩ := h l was
  exact ⟨p, (live_drop inside).2 ⟨fun same => gone (same ▸ there), there⟩⟩

theorem Guarded.keep (h : k.Guarded) (inside : place < k.places.size)
    (new : k.core.Made made) : (k.keep place made).Guarded := by
  intro l held
  obtain ⟨now, gone⟩ := mem_held_keep.1 held
  rcases (new.held l).1 now with was | on
  · obtain ⟨p, there⟩ := h l was
    have other : p ≠ place := fun same => gone (same ▸ there)
    exact ⟨p, (live_keep inside).2 (by rwa [if_neg other])⟩
  · exact ⟨place, (live_keep inside).2 (by rwa [if_pos rfl])⟩

theorem Exclusive.drop (h : k.Exclusive) (inside : place < k.places.size) :
    (k.drop place).2.Exclusive := by
  refine ⟨fun l p q hp hq => ?_, fun l => ⟨h.guarded.drop inside l, ?_⟩⟩
  · exact h.once l p q ((live_drop inside).1 hp).2 ((live_drop inside).1 hq).2
  · rintro ⟨p, there⟩
    obtain ⟨other, was⟩ := (live_drop inside).1 there
    exact mem_held_drop.2 ⟨(h.held l).2 ⟨p, was⟩, fun also => other (h.once l p place was also)⟩

theorem Exclusive.keep (h : k.Exclusive) (inside : place < k.places.size)
    (new : k.core.Made made) : (k.keep place made).Exclusive := by
  -- The lock of the new guard was free, so no guard that was there is on it.
  have alone : ∀ p l, made.1.lock? = some l → ¬k.Live p l :=
    fun p l on there => new.free l on ((h.held l).2 ⟨p, there⟩)
  refine ⟨fun l p q hp hq => ?_, fun l => ⟨h.guarded.keep inside new l, ?_⟩⟩
  · rw [live_keep inside] at hp hq
    by_cases here : p = place <;> by_cases there : q = place
    · rw [here, there]
    · rw [if_pos here] at hp
      rw [if_neg there] at hq
      exact absurd hq (alone q l hp)
    · rw [if_neg here] at hp
      rw [if_pos there] at hq
      exact absurd hp (alone p l hq)
    · rw [if_neg here] at hp
      rw [if_neg there] at hq
      exact h.once l p q hp hq
  · rintro ⟨p, now⟩
    rw [live_keep inside] at now
    rw [mem_held_keep, new.held, h.held l]
    by_cases here : p = place
    · rw [if_pos here] at now
      exact ⟨Or.inr now, alone place l now⟩
    · rw [if_neg here] at now
      exact ⟨Or.inl ⟨p, now⟩, fun also => here (h.once l p place now also)⟩

inductive Request (L : Type)
  | mask (place : Nat)
  | lock (l : L) (place : Nat)
  | lockMasked (l : L) (place : Nat)
  | tryLock (l : L) (place : Nat)
  | drop (place : Nat)
  deriving DecidableEq

namespace Request

def target : Request L → Nat
  | .mask place | .lock _ place | .lockMasked _ place | .tryLock _ place | .drop place => place

def run (k : Keeper L σ) : Request L → Option (Keeper L σ)
  | .mask place => some (k.keep place k.core.guardMask)
  | .lock l place => (k.core.guardLock? l).map (k.keep place)
  | .lockMasked l place => (k.core.guardMaskedLock? l).map (k.keep place)
  | .tryLock l place =>
    match k.core.tryLock l with
    | (some g, c) => some (k.keep place (g, c))
    | (none, c) => some { k with core := c }
  | .drop place => some (k.drop place).2

def Refused (k : Keeper L σ) : Request L → Prop
  | .tryLock l _ => l ∈ k.core.held
  | _ => False

end Request

inductive Runs (allowed : Keeper L σ → Request L → Prop) (k : Keeper L σ) : Keeper L σ → Prop
  | start : Runs allowed k k
  | step {k₁ k₂ : Keeper L σ} (request : Request L) : Runs allowed k k₁ →
      request.target < k₁.places.size → allowed k₁ request → request.run k₁ = some k₂ →
      Runs allowed k k₂

/-- All that a request can do: a guard is made and kept, one is given back, or an attempt is refused
and releases what it was an attempt on. -/
theorem Request.run_cases {request : Request L} (ran : request.run k = some k') :
    (¬request.Refused k ∧ ∃ made, k.core.Made made ∧ k' = k.keep request.target made) ∨
    (¬request.Refused k ∧ k' = (k.drop request.target).2) ∨
    (request.Refused k ∧ ∃ l ∈ k.core.held, k' = { k with core := k.core.release l }) := by
  cases request with
  | mask place =>
    cases ran
    exact Or.inl ⟨id, _, Core.made_guardMask k.core, rfl⟩
  | lock l place =>
    obtain ⟨made, taken, rfl⟩ := Option.map_eq_some_iff.1 ran
    exact Or.inl ⟨id, made, Core.made_of_guardLock? taken, rfl⟩
  | lockMasked l place =>
    obtain ⟨made, taken, rfl⟩ := Option.map_eq_some_iff.1 ran
    exact Or.inl ⟨id, made, Core.made_of_guardMaskedLock? taken, rfl⟩
  | tryLock l place =>
    rcases k.core.tryLock_cases l with ⟨free, g, c, e, new⟩ | ⟨held, e⟩
    · simp only [Request.run, e] at ran
      cases ran
      exact Or.inl ⟨free, _, new, rfl⟩
    · simp only [Request.run, e] at ran
      cases ran
      exact Or.inr (Or.inr ⟨held, l, held, rfl⟩)
  | drop place =>
    cases ran
    exact Or.inr (Or.inl ⟨id, rfl⟩)

theorem Guarded.run {request : Request L} (h : k.Guarded)
    (inside : request.target < k.places.size) (ran : request.run k = some k') : k'.Guarded := by
  rcases Request.run_cases ran with ⟨-, made, new, rfl⟩ | ⟨-, rfl⟩ | ⟨-, l, -, rfl⟩
  · exact h.keep inside new
  · exact h.drop inside
  · exact fun l' held => h l' (Core.mem_held_release.1 held).1

theorem Exclusive.run {request : Request L} (h : k.Exclusive)
    (inside : request.target < k.places.size) (granted : ¬request.Refused k)
    (ran : request.run k = some k') : k'.Exclusive := by
  rcases Request.run_cases ran with ⟨-, made, new, rfl⟩ | ⟨-, rfl⟩ | ⟨refused, -⟩
  · exact h.keep inside new
  · exact h.drop inside
  · exact absurd refused granted

/-- In every run, refused attempts or not, a lock that is held has a guard on it. -/
theorem Runs.guarded {allowed : Keeper L σ → Request L → Prop} {places : Nat} {value : σ}
    (run : Runs allowed (Keeper.start places value) k) : k.Guarded := by
  induction run with
  | start => exact guarded_start places value
  | step _ _ inside _ ran ih => exact ih.run inside ran

theorem Runs.exclusive (run : Runs (fun k request => ¬request.Refused k) k k')
    (start : k.Exclusive) : k'.Exclusive := by
  induction run with
  | start => exact start
  | step _ _ inside granted ran ih => exact ih.run inside granted ran

/-- As long as no attempt is refused, a lock is held exactly while there is one guard on it, and
there are never two. -/
theorem mutual_exclusion {places : Nat} {value : σ}
    (run : Runs (fun k request => ¬request.Refused k) (start places value) k) :
    (∀ l p q, k.Live p l → k.Live q l → p = q) ∧
      ∀ l, k.core.isLocked l = true ↔ ∃! place, k.Live place l := by
  have exclusive := run.exclusive (exclusive_start places value)
  refine ⟨exclusive.once, fun l => ?_⟩
  rw [Core.isLocked_iff, exclusive.held l]
  constructor
  · rintro ⟨p, there⟩
    exact ⟨p, there, fun q also => exclusive.once l q p also there⟩
  · rintro ⟨p, there, -⟩
    exact ⟨p, there⟩

theorem mutual_exclusion_small :
    ∃ k : Keeper (Fin 3) Unit,
      Runs (fun k request => ¬request.Refused k) (start 3 ()) k ∧ k.Live 0 0 ∧
      (∀ l p q, k.Live p l → k.Live q l → p = q) ∧
      ∀ l, k.core.isLocked l = true ↔ ∃! place, k.Live place l := by
  have first : Runs (fun k request => ¬request.Refused k) (start 3 () : Keeper (Fin 3) Unit) _ :=
    .step (.lock 0 0) .start (by decide) id rfl
  have second := first.step (.lockMasked 1 1) (by decide) id rfl
  have free : (2 : Fin 3) ∉ [1, 0] := by decide
  have third := second.step (.tryLock 2 2) (by decide) free rfl
  exact ⟨_, third, ⟨.lock 0, rfl, rfl⟩, mutual_exclusion third⟩

/-- A lock is taken and an attempt on it is refused; now it is free, though the guard on it is still
there, and with the next attempt there are two. -/
theorem two_guards_after_refusal :
    ∃ k k' : Keeper Lock Unit, Runs (fun _ _ => True) (start 2 ()) k ∧ k.Live 0 .root ∧
      k.core.isLocked .root = false ∧ Runs (fun _ _ => True) (start 2 ()) k' ∧
      k'.Live 0 .root ∧ k'.Live 1 .root := by
  have taken : Runs (fun _ _ => True) (start 2 () : Keeper Lock Unit) _ :=
    .step (.lock .root 0) .start (by decide) trivial rfl
  have refused := taken.step (.tryLock .root 1) (by decide) trivial rfl
  have again := refused.step (.tryLock .root 1) (by decide) trivial rfl
  exact ⟨_, _, refused, ⟨.lock .root, rfl, rfl⟩, rfl, again, ⟨.lock .root, rfl, rfl⟩,
    ⟨.lock .root, rfl, rfl⟩⟩

end Keeper

/-- Whoever held the lock of the active root when a fault came, it is free afterwards. -/
theorem Kernel.root_free_after_tryCurrentRoot (c : Core Lock Kernel) :
    (tryCurrentRoot c).2.isLocked .root = false := by
  refine Bool.eq_false_iff.2 fun locked => ?_
  have held := Core.isLocked_iff.1 locked
  unfold tryCurrentRoot at held
  rcases c.tryLock_cases .root with ⟨free, g, taken, e, new⟩ | ⟨-, e⟩
  · rw [e] at held
    obtain ⟨still, other⟩ := Core.mem_held_giveBack.1 held
    rcases (new.held .root).1 still with before | on
    · exact free before
    · exact other on
  · rw [e] at held
    exact (Core.mem_held_release.1 held).2 rfl

end Ia32Memory
