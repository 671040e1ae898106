import Ia32Memory.Proofs.Frame.FreeSet

/-! Counters of users over a run.
A page has as many users as the requests of a run gave it, less those that they took away, whatever
was asked about other pages and however often the page was handed out in between.  Requests about
users touch neither map nor count, those about frames no counter, and each counter lies in the words
that the layout sets aside for counters. -/

namespace Ia32Memory.FrameAllocator

def Request.aboutUsers : Request → Bool
  | .addUser _ | .removeUser _ => true
  | _ => false

/-- How often the requests of a run gave a page a user. -/
def usersGiven (p : PhysicalPage) (events : List (Request × Answer)) : Nat :=
  events.countP fun event => event.1 = .addUser p

def usersTaken (p : PhysicalPage) (events : List (Request × Answer)) : Nat :=
  events.countP fun event => event.1 = .removeUser p

variable {a b c : FrameAllocator} {p q : PhysicalPage} {request : Request} {answer : Answer}
  {events more : List (Request × Answer)}

theorem usersGiven_append :
    usersGiven p (events ++ more) = usersGiven p events + usersGiven p more :=
  List.countP_append

theorem usersTaken_append :
    usersTaken p (events ++ more) = usersTaken p events + usersTaken p more :=
  List.countP_append

@[simp] theorem usersGiven_singleton :
    usersGiven p [(request, answer)] = if request = .addUser p then 1 else 0 := by
  simp [usersGiven, List.countP_singleton]

@[simp] theorem usersTaken_singleton :
    usersTaken p [(request, answer)] = if request = .removeUser p then 1 else 0 := by
  simp [usersTaken, List.countP_singleton]

theorem marked_of_run (ha : a.Consistent) (frames : request.aboutUsers = false)
    (step : request.run a = .ok answer b) :
    b = a ∨ ∃ value first count, Marked value first count a b := by
  cases request with
  | take =>
    obtain ⟨t, c, took, rest⟩ := step_bind_eq_ok.1 step
    cases rest
    rcases take_eq_ok ha took with ⟨-, same, -⟩ | ⟨i, p, -, -, -, -, marked⟩
    · exact Or.inl same
    · exact Or.inr ⟨_, _, _, marked⟩
  | release p =>
    obtain ⟨u, c, released, rest⟩ := step_bind_eq_ok.1 step
    cases rest
    obtain ⟨i, -, -, marked⟩ := release_eq_ok ha released
    exact Or.inr ⟨_, _, _, marked⟩
  | takeRegion start stop =>
    obtain ⟨u, c, took, rest⟩ := step_bind_eq_ok.1 step
    cases rest
    rcases takeRegion_eq_ok ha took with ⟨-, same⟩ | ⟨first, count, -, -, marked⟩
    · exact Or.inl same
    · exact Or.inr ⟨_, _, _, marked⟩
  | releaseRegion start stop =>
    obtain ⟨u, c, released, rest⟩ := step_bind_eq_ok.1 step
    cases rest
    rcases releaseRegion_eq_ok ha released with ⟨-, same⟩ | ⟨first, count, -, -, marked⟩
    · exact Or.inl same
    · exact Or.inr ⟨_, _, _, marked⟩
  | addUser p => exact nomatch frames
  | removeUser p => exact nomatch frames

theorem usage_of_run (ha : a.Consistent) (frames : request.aboutUsers = false)
    (step : request.run a = .ok answer b) : b.usage = a.usage := by
  rcases marked_of_run ha frames step with rfl | ⟨value, first, count, marked⟩
  · rfl
  · exact marked.usage

theorem eq_with_usage (shaped : a.Shaped) (users : request.aboutUsers = true)
    (step : request.run a = .ok answer b) : b = { a with usage := b.usage } := by
  cases request with
  | addUser p =>
    obtain ⟨n, c, added, rest⟩ := step_bind_eq_ok.1 step
    cases rest
    rcases addUser_cases shaped p with ⟨f, -, e⟩ | ⟨i, -, ⟨-, e⟩ | ⟨-, e⟩⟩
    · exact nomatch e.symm.trans added
    · exact nomatch e.symm.trans added
    · cases e.symm.trans added
      rfl
  | removeUser p =>
    obtain ⟨n, c, removed, rest⟩ := step_bind_eq_ok.1 step
    cases rest
    rcases removeUser_cases shaped p with ⟨f, -, e⟩ | ⟨i, -, ⟨-, e⟩ | ⟨-, e⟩⟩
    · exact nomatch e.symm.trans removed
    · exact nomatch e.symm.trans removed
    · cases e.symm.trans removed
      rfl
  | _ => exact nomatch users

theorem Managing.users_of_run (ha : a.Managing) (managed : a.stats.Manages p)
    (step : request.run a = .ok answer b) :
    b.users p + usersTaken p [(request, answer)] =
      a.users p + usersGiven p [(request, answer)] := by
  have kept := (ha.follows step).sameMemory
  cases request with
  | addUser q =>
    obtain ⟨n, c, added, rest⟩ := step_bind_eq_ok.1 step
    cases rest
    obtain ⟨-, rfl, counted⟩ := ha.counted_of_addUser added
    rw [counted.users p managed]
    by_cases same : p = q
    · simp [same]
    · simp [same, Ne.symm same]
  | removeUser q =>
    obtain ⟨n, c, removed, rest⟩ := step_bind_eq_ok.1 step
    cases rest
    obtain ⟨-, had, counted⟩ := ha.counted_of_removeUser removed
    rw [counted.users p managed]
    by_cases same : p = q
    · simp [same, had]
    · simp [same, Ne.symm same]
  | _ =>
    have same : b.users p = a.users p := by
      rw [users, kept.indexOf, usage_of_run ha.toConsistent rfl step, users]
    simp [same]

theorem Trace.users_eq (run : Trace a events b) (ha : a.Managing) (managed : a.stats.Manages p) :
    b.users p + usersTaken p events = a.users p + usersGiven p events := by
  induction run with
  | nil => rfl
  | snoc run step ih =>
    obtain ⟨hb, -, kept⟩ := run.follows ha
    have last := hb.users_of_run (kept.manages.2 managed) step
    rw [usersTaken_append, usersGiven_append]
    omega

/-- The counter of a page stands at a number: that is the answer, the ends of its range are where it
stops, and it lies in the words of the counters. -/
structure StandsAt (a : FrameAllocator) (p : PhysicalPage) (n : Nat) : Prop where
  answer : usageOf p a = .ok n a
  full : Faults (addUser p) a ↔ n = 65535
  empty : Faults (removeUser p) a ↔ n = 0
  stored : ∃ i, frameIndex p a = .ok i a ∧ i / 2 < a.usage.size

theorem Managing.standsAt (ha : a.Managing) (managed : a.stats.Manages p) :
    a.StandsAt p (a.users p) where
  answer := usageOf_eq ha.toShaped (ha.addressable.frameIndex_of_manages managed)
  full := by
    rcases ha.addUser managed with ⟨full, f, e⟩ | ⟨room, b, e, -⟩
    · exact iff_of_true ⟨f, a, e⟩ full
    · exact faults_iff_of_ok e _ room
  empty := by
    rcases ha.removeUser managed with ⟨none, f, e⟩ | ⟨some, b, e, -⟩
    · exact iff_of_true ⟨f, a, e⟩ none
    · exact faults_iff_of_ok e _ some
  stored := by
    refine ⟨a.stats.indexOf p, ?_, ?_⟩
    · simp [frameIndex, ha.addressable.frameIndex_of_manages managed]
    · have inside := ha.addressable.indexOf_lt managed
      rw [ha.counters]
      omega

variable {memory : BootMemory} {image : Image} {storage : Words}

/-- After every run a page of memory has as many users as the run gave it less those it took away.
Only requests about users move a counter, and they move nothing else; a request that faults moves
nothing at all. -/
theorem users_counted (addressable : memory.Addressable)
    (ready : setup memory image storage = .ok (.ok a)) (run : Trace a events b) :
    (∀ p ∈ memory.pages,
      ∃ n, b.StandsAt p n ∧ n + usersTaken p events = usersGiven p events) ∧
    b.usage.size = (MapLayout.forFrames memory.totalFrames).usageWords ∧
    (∀ request answer c, Request.run request b = .ok answer c →
      (request.aboutUsers = true → c = { b with usage := c.usage }) ∧
        (request.aboutUsers = false → c.usage = b.usage)) ∧
    ∀ request f c, Request.run request b = .error f c → c = b := by
  obtain ⟨ha, pages, -, unused⟩ := managing_of_setup addressable ready
  obtain ⟨hb, -, kept⟩ := run.follows ha
  refine ⟨fun p inside => ?_, ?_, fun request answer c step => ?_, fun request f c step => ?_⟩
  · have managed : a.stats.Manages p := by
      rw [← pages] at inside
      exact inside
    have sum := run.users_eq ha managed
    rw [unused p, Nat.zero_add] at sum
    exact ⟨b.users p, hb.standsAt (kept.manages.2 managed), sum⟩
  · obtain ⟨-, total, -⟩ := consistent_of_setup addressable.total_lt ready
    unfold SameMemory at kept
    rw [hb.counters, kept, total]
    rfl
  · exact ⟨fun users => eq_with_usage hb.toShaped users step,
      fun frames => usage_of_run hb.toConsistent frames step⟩
  · have sound := Request.sound hb.toConsistent request
    rw [step] at sound
    exact sound.1

theorem users_counted_small :
    ∃ a b, setup ⟨8, 32⟩ smallImage (Array.replicate 7 0) = .ok (.ok a) ∧
      Trace a [(.addUser .first, .users 1)] b ∧ b.StandsAt .first 1 := by
  have given : ∃ a b, setup ⟨8, 32⟩ smallImage (Array.replicate 7 0) = .ok (.ok a) ∧
      Request.run (.addUser .first) a = .ok (.users 1) b :=
    exists_of_answersFirst (by decide +kernel)
  obtain ⟨a, b, ready, step⟩ := given
  have run := Trace.snoc .nil step
  obtain ⟨n, stands, sum⟩ :=
    (users_counted ⟨by decide, by decide⟩ ready run).1 .first (Or.inl (by decide))
  have one : n = 1 := sum
  exact ⟨a, b, ready, run, one ▸ stands⟩

end Ia32Memory.FrameAllocator
