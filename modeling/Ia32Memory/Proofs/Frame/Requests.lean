import Ia32Memory.Proofs.Frame.Setup

/-! Runs of requests to an allocator.
A request either leaves a consistent allocator, with the fixed counts as they were, or stops with a
fault that blames the one who asked and changes nothing.  So the allocator is consistent after any
number of requests, and what it checks for its own sake never fails. -/

namespace Ia32Memory.FrameAllocator

inductive Request
  | take
  | release (frame : PhysicalPage)
  | takeRegion (start stop : PhysicalAddress)
  | releaseRegion (start stop : PhysicalAddress)
  | addUser (frame : PhysicalPage)
  | removeUser (frame : PhysicalPage)
  deriving DecidableEq

inductive Answer
  | taken (taken : Taken)
  | done
  | users (n : Nat)
  deriving DecidableEq

def Request.run : Request → Step Answer
  | .take => do return .taken (← FrameAllocator.take)
  | .release p => do
    FrameAllocator.release p
    return .done
  | .takeRegion start stop => do
    FrameAllocator.takeRegion start stop
    return .done
  | .releaseRegion start stop => do
    FrameAllocator.releaseRegion start stop
    return .done
  | .addUser p => do return .users (← FrameAllocator.addUser p)
  | .removeUser p => do return .users (← FrameAllocator.removeUser p)

/-- The requests of a run with their answers, oldest first; none of them met a fault. -/
inductive Trace (a : FrameAllocator) : List (Request × Answer) → FrameAllocator → Prop
  | nil : Trace a [] a
  | snoc {events : List (Request × Answer)} {b c : FrameAllocator} {request : Request}
      {answer : Answer} : Trace a events b → request.run b = .ok answer c →
      Trace a (events ++ [(request, answer)]) c

def SameMemory (a b : FrameAllocator) : Prop :=
  b.stats = { a.stats with free := b.stats.free, used := b.stats.used }

variable {a b c : FrameAllocator} {request : Request} {answer : Answer} {f : Fault}
  {events : List (Request × Answer)} {first count : Nat} {value : Bool}

theorem SameMemory.refl (a : FrameAllocator) : SameMemory a a := rfl

theorem SameMemory.trans (hab : SameMemory a b) (hbc : SameMemory b c) : SameMemory a c := by
  unfold SameMemory at *
  rw [hab] at hbc
  exact hbc

theorem SameMemory.total (h : SameMemory a b) : b.stats.total = a.stats.total := by
  unfold SameMemory at h
  rw [h]

theorem Marked.sameMemory (h : Marked value first count a b) : SameMemory a b := h.stats

/-- How a step may end that started at a consistent allocator. -/
def Sound (a : FrameAllocator) {α : Type} : EStateM.Result Fault FrameAllocator α → Prop
  | .ok _ b => b.Consistent ∧ SameMemory a b
  | .error f b => b = a ∧ f.BlamesCaller

theorem Sound.answered {α : Type} {x : Step α} (h : Sound a (x a)) (g : α → Answer) :
    Sound a ((do return g (← x) : Step Answer) a) := by
  cases e : x a with
  | ok t b =>
    rw [e] at h
    rw [step_bind_ok e]
    exact h
  | error f b =>
    rw [e] at h
    rw [step_bind_error e]
    exact h

theorem sound_take (ha : a.Consistent) : Sound a (take a) := by
  rcases take_cases ha with ⟨-, e⟩ | ⟨i, p, b, -, -, -, -, e, marked⟩
  · rw [e]
    exact ⟨ha, .refl a⟩
  · rw [e]
    exact ⟨marked.consistent, marked.sameMemory⟩

theorem sound_release (ha : a.Consistent) (p : PhysicalPage) : Sound a (release p a) := by
  rcases release_cases ha p with ⟨f, index, e⟩ | ⟨i, -, ⟨-, e⟩ | ⟨-, b, e, marked⟩⟩
  · rw [e]
    exact ⟨rfl, Stats.blames_of_frameIndex index⟩
  · rw [e]
    exact ⟨rfl, trivial⟩
  · rw [e]
    exact ⟨marked.consistent, marked.sameMemory⟩

theorem sound_takeRegion (ha : a.Consistent) (start stop : PhysicalAddress) :
    Sound a (takeRegion start stop a) := by
  rcases takeRegion_cases ha start stop with ⟨f, region, e⟩ | ⟨-, e⟩ |
    ⟨first, count, -, ⟨i, -, -, -, e⟩ | ⟨-, b, e, marked⟩⟩
  · rw [e]
    exact ⟨rfl, Stats.blames_of_region region⟩
  · rw [e]
    exact ⟨ha, .refl a⟩
  · rw [e]
    exact ⟨rfl, trivial⟩
  · rw [e]
    exact ⟨marked.consistent, marked.sameMemory⟩

theorem sound_releaseRegion (ha : a.Consistent) (start stop : PhysicalAddress) :
    Sound a (releaseRegion start stop a) := by
  rcases releaseRegion_cases ha start stop with ⟨f, region, e⟩ | ⟨-, e⟩ |
    ⟨first, count, -, ⟨i, -, -, -, e⟩ | ⟨-, b, e, marked⟩⟩
  · rw [e]
    exact ⟨rfl, Stats.blames_of_region region⟩
  · rw [e]
    exact ⟨ha, .refl a⟩
  · rw [e]
    exact ⟨rfl, trivial⟩
  · rw [e]
    exact ⟨marked.consistent, marked.sameMemory⟩

theorem sound_addUser (ha : a.Consistent) (p : PhysicalPage) : Sound a (addUser p a) := by
  rcases addUser_cases ha.toShaped p with ⟨f, index, e⟩ | ⟨i, -, ⟨-, e⟩ | ⟨-, e⟩⟩
  · rw [e]
    exact ⟨rfl, Stats.blames_of_frameIndex index⟩
  · rw [e]
    exact ⟨rfl, trivial⟩
  · rw [e]
    exact ⟨ha.with_usage (Counters.size_put ..), rfl⟩

theorem sound_removeUser (ha : a.Consistent) (p : PhysicalPage) : Sound a (removeUser p a) := by
  rcases removeUser_cases ha.toShaped p with ⟨f, index, e⟩ | ⟨i, -, ⟨-, e⟩ | ⟨-, e⟩⟩
  · rw [e]
    exact ⟨rfl, Stats.blames_of_frameIndex index⟩
  · rw [e]
    exact ⟨rfl, trivial⟩
  · rw [e]
    exact ⟨ha.with_usage (Counters.size_put ..), rfl⟩

theorem Request.sound (ha : a.Consistent) (request : Request) : Sound a (request.run a) := by
  cases request with
  | take => exact (sound_take ha).answered Answer.taken
  | release p => exact (sound_release ha p).answered fun _ => .done
  | takeRegion start stop => exact (sound_takeRegion ha start stop).answered fun _ => .done
  | releaseRegion start stop => exact (sound_releaseRegion ha start stop).answered fun _ => .done
  | addUser p => exact (sound_addUser ha p).answered Answer.users
  | removeUser p => exact (sound_removeUser ha p).answered Answer.users

theorem take_answers (ha : a.Consistent) {t : Taken} (e : take a = .ok t b) :
    (∃ p, t = .frame p) ∨ t = .exhausted ∧ a.stats.free = 0 := by
  rcases take_cases ha with ⟨none, e'⟩ | ⟨i, p, c, -, -, -, -, e', -⟩
  · cases e'.symm.trans e
    exact Or.inr ⟨rfl, ha.free_eq_zero none⟩
  · cases e'.symm.trans e
    exact Or.inl ⟨p, rfl⟩

theorem Trace.consistent (run : Trace a events b) (ha : a.Consistent) :
    b.Consistent ∧ SameMemory a b := by
  induction run with
  | nil => exact ⟨ha, .refl a⟩
  | snoc run step ih =>
    obtain ⟨hb, kept⟩ := ih
    have sound := Request.sound hb ‹_›
    rw [step] at sound
    exact ⟨sound.1, kept.trans sound.2⟩

variable {memory : BootMemory} {image : Image} {storage : Words}

theorem consistent_of_setup (small : memory.totalFrames < 1 <<< 64)
    (ready : setup memory image storage = .ok (.ok a)) :
    a.Consistent ∧ a.stats.total = memory.totalFrames ∧ a.stats.lower = memory.lowerFrames ∧
      a.stats.upper = memory.upperFrames := by
  obtain ⟨required, own, kernel, -, -, -, -, -, -, -, -, -, taken⟩ := setup_eq_ok ready
  have start : (allFree memory kernel (storage.extract required storage.size)).Consistent :=
    consistent_allFree small
  have sound := sound_takeRegion start image.physical (endOfFrames image.physical kernel)
  rw [taken] at sound
  obtain ⟨ha, kept⟩ := sound
  unfold SameMemory at kept
  exact ⟨ha, by rw [kept]; rfl, by rw [kept]; rfl, by rw [kept]; rfl⟩

/-- Every run of requests keeps the maps and the counts consistent and leaves the fixed counts as
they were; no frame is missing where one is counted, and no fault is met but one that blames the
caller. -/
theorem representation_kept (reported : memory.Reported)
    (ready : setup memory image storage = .ok (.ok a)) (run : Trace a events b) :
    b.Consistent ∧
      (b.stats.total = memory.lowerFrames + memory.upperFrames ∧
        b.stats.lower = memory.lowerFrames ∧ b.stats.upper = memory.upperFrames ∧
        b.stats.kernel = a.stats.kernel) ∧
      (∀ t c, take b = .ok t c → (∃ p, t = .frame p) ∨ t = .exhausted ∧ b.stats.free = 0) ∧
      ∀ request f c, Request.run request b = .error f c → c = b ∧ f.BlamesCaller := by
  obtain ⟨ha, total, lower, upper⟩ := consistent_of_setup reported.total_lt ready
  obtain ⟨hb, kept⟩ := run.consistent ha
  have fixed : b.stats.total = a.stats.total ∧ b.stats.lower = a.stats.lower ∧
      b.stats.upper = a.stats.upper ∧ b.stats.kernel = a.stats.kernel := by
    unfold SameMemory at kept
    rw [kept]
    exact ⟨rfl, rfl, rfl, rfl⟩
  obtain ⟨sameTotal, sameLower, sameUpper, sameKernel⟩ := fixed
  refine ⟨hb, ⟨sameTotal.trans total, sameLower.trans lower, sameUpper.trans upper, sameKernel⟩,
    fun t c e => take_answers hb e, fun request f c e => ?_⟩
  have sound := Request.sound hb request
  rw [e] at sound
  exact sound

def answersFirst (memory : BootMemory) (image : Image) (storage : Words) (request : Request)
    (answer : Answer) : Bool :=
  match setup memory image storage with
  | .ok (.ok a) =>
    match request.run a with
    | .ok got _ => got = answer
    | .error .. => false
  | _ => false

theorem exists_of_answersFirst (h : answersFirst memory image storage request answer = true) :
    ∃ a b, setup memory image storage = .ok (.ok a) ∧ request.run a = .ok answer b := by
  unfold answersFirst at h
  split at h
  · rename_i a ready
    split at h
    · rename_i got b step
      rw [of_decide_eq_true h] at step
      exact ⟨a, b, ready, step⟩
    · exact absurd h Bool.false_ne_true
  · exact absurd h Bool.false_ne_true

def smallImage : Image :=
  ⟨⟨0x100000, by decide⟩, ⟨0xC0100000, by decide⟩, 4096, .empty, .empty, .empty⟩

theorem exists_small_run :
    ∃ a b, setup ⟨8, 32⟩ smallImage (Array.replicate 7 0) = .ok (.ok a) ∧
      Request.run .take a = .ok (.taken (.frame .first)) b :=
  exists_of_answersFirst (by decide +kernel)

theorem representation_kept_small :
    ∃ a b, setup ⟨8, 32⟩ smallImage (Array.replicate 7 0) = .ok (.ok a) ∧
      Trace a [(.take, .taken (.frame .first))] b ∧ b.Consistent ∧ b.stats.total = 10 := by
  obtain ⟨a, b, ready, step⟩ := exists_small_run
  have run := Trace.snoc .nil step
  obtain ⟨consistent, ⟨total, -⟩, -⟩ := representation_kept ⟨by decide, by decide⟩ ready run
  exact ⟨a, b, ready, run, consistent, total⟩

end Ia32Memory.FrameAllocator
