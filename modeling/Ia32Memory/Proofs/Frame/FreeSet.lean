import Ia32Memory.Proofs.Frame.Pages

/-! An allocator as a plain set of free pages.
Each event of a run hands out some pages and gives back some; the set that this leaves decides what
every further request does.  In particular a page that was handed out is not handed out again
before it was given back. -/

namespace Ia32Memory

/-- Sizes for which every frame has an address: lower memory ends at or below 1 MiB, upper memory
at or below 4 GiB. -/
structure BootMemory.Addressable (m : BootMemory) : Prop where
  lower : m.lowerFrames ≤ 256
  upper : AddressMap.upperMemoryStart + m.upperFrames * 4096 ≤ 0x100000000

def BootMemory.pages (m : BootMemory) : Set PhysicalPage :=
  {p | p.base.toNat < m.lowerFrames * 4096 ∨
    (AddressMap.upperMemoryStart ≤ p.base.toNat ∧
      p.base.toNat < AddressMap.upperMemoryStart + m.upperFrames * 4096)}

theorem BootMemory.Addressable.total_lt {m : BootMemory} (h : m.Addressable) :
    m.totalFrames < 1 <<< 64 := by
  have lower := h.lower
  have upper := h.upper
  refine Nat.lt_of_lt_of_le (m := 0x200000) ?_ (by decide)
  unfold AddressMap.upperMemoryStart at upper
  unfold totalFrames
  omega

theorem Counters.count_replicate_zero (n i : Nat) :
    Counters.count (Array.replicate n 0) i = 0 := by
  have blank : (Array.replicate n (0 : Word)).getD (i / 2) 0 = 0 := by
    by_cases inside : i / 2 < n <;> simp [inside]
  rw [Counters.count, blank]
  simp [Counters.half, Field.get]

namespace FrameAllocator

/-- The pages that an event hands out. -/
def handedOut : Request × Answer → Set PhysicalPage
  | (.take, .taken (.frame p)) => {p}
  | (.takeRegion start stop, _) => regionPages start stop
  | _ => ∅

def givenBack : Request × Answer → Set PhysicalPage
  | (.release p, _) => {p}
  | (.releaseRegion start stop, _) => regionPages start stop
  | _ => ∅

def freeAfter (free : Set PhysicalPage) (event : Request × Answer) : Set PhysicalPage :=
  (free \ handedOut event) ∪ givenBack event

def Faults {α : Type} (step : Step α) (a : FrameAllocator) : Prop := ∃ f b, step a = .error f b

/-- Every answer is the one that a set of free pages gives. -/
structure ActsAsSet (a : FrameAllocator) (managed free : Set PhysicalPage) : Prop where
  within : free ⊆ managed
  isFree : ∀ p ∈ managed, ∃ yes, isFree p a = .ok yes a ∧ (yes = true ↔ p ∈ free)
  isFree_missing : ∀ p ∉ managed, Faults (FrameAllocator.isFree p) a
  take_empty : free = ∅ → take a = .ok .exhausted a
  take_lowest : free ≠ ∅ → ∃ p ∈ free, (∀ q ∈ free, p.base.toNat ≤ q.base.toNat) ∧
    ∃ b, take a = .ok (.frame p) b
  release : ∀ p, Faults (release p) a ↔ p ∉ managed ∨ p ∈ free
  takeRegion : ∀ start stop, Faults (takeRegion start stop) a ↔
    ¬start.IsAligned ∨ ¬stop.IsAligned ∨
      (start < stop ∧ ∃ p ∈ regionPages start stop, p ∉ managed ∨ p ∉ free)
  releaseRegion : ∀ start stop, Faults (releaseRegion start stop) a ↔
    ¬start.IsAligned ∨ ¬stop.IsAligned ∨
      (start < stop ∧ ∃ p ∈ regionPages start stop, p ∉ managed ∨ p ∈ free)

variable {a b : FrameAllocator} {p : PhysicalPage} {request : Request} {answer : Answer}
  {events : List (Request × Answer)}

theorem faults_iff_of_ok {α : Type} {step : Step α} {x : α} (e : step a = .ok x b) (fails : Prop)
    (not : ¬fails) : Faults step a ↔ fails :=
  iff_of_false (fun ⟨_, _, e'⟩ => nomatch e.symm.trans e') not

theorem Managing.actsAsSet (ha : a.Managing) :
    ActsAsSet a {p | a.stats.Manages p} a.freePages where
  within p free := free.1
  isFree p managed := by
    rcases ha.isFree p with ⟨missing, -⟩ | ⟨-, answer⟩
    · exact absurd managed missing
    · exact answer
  isFree_missing p missing := by
    rcases ha.isFree p with ⟨-, f, e⟩ | ⟨managed, -⟩
    · exact ⟨f, a, e⟩
    · exact absurd managed missing
  take_empty none := by
    rcases ha.take with ⟨-, e⟩ | ⟨p, b, free, -⟩
    · exact e
    · rw [none] at free
      exact free.elim
  take_lowest some := by
    rcases ha.take with ⟨none, -⟩ | ⟨p, b, free, lowest, e, -⟩
    · exact absurd none some
    · refine ⟨p, free, fun q hq => ?_, b, e⟩
      exact Nat.mul_le_mul_right 4096 (lowest q hq)
  release p := by
    rcases ha.release p with ⟨why, f, e⟩ | ⟨managed, used, b, e, -⟩
    · exact iff_of_true ⟨f, a, e⟩ why
    · exact faults_iff_of_ok e _ fun why => why.elim (fun missing => missing managed) used
  takeRegion start stop := by
    rcases ha.takeRegion start stop with ⟨why, f, e⟩ | ⟨hstart, hstop, free, b, e, -⟩
    · refine iff_of_true ⟨f, a, e⟩ ?_
      rcases why with unaligned | ⟨lt, p, mem, used⟩
      · exact (Classical.not_and_iff_not_or_not.1 unaligned).imp_right Or.inl
      · exact Or.inr (Or.inr ⟨lt, p, mem, Or.inr used⟩)
    · refine faults_iff_of_ok e _ ?_
      rintro (unaligned | unaligned | ⟨-, p, mem, missing | used⟩)
      · exact unaligned hstart
      · exact unaligned hstop
      · exact missing (free mem).1
      · exact used (free mem)
  releaseRegion start stop := by
    rcases ha.releaseRegion start stop with ⟨why, f, e⟩ | ⟨hstart, hstop, used, b, e, -⟩
    · refine iff_of_true ⟨f, a, e⟩ ?_
      rcases why with unaligned | bad
      · exact (Classical.not_and_iff_not_or_not.1 unaligned).imp_right Or.inl
      · exact Or.inr (Or.inr bad)
    · refine faults_iff_of_ok e _ ?_
      rintro (unaligned | unaligned | ⟨-, p, mem, missing | free⟩)
      · exact unaligned hstart
      · exact unaligned hstop
      · exact missing (used p mem).1
      · exact (used p mem).2 free

structure Follows (a b : FrameAllocator) (event : Request × Answer) : Prop where
  managing : b.Managing
  free : b.freePages = freeAfter a.freePages event
  sameMemory : SameMemory a b
  legal : handedOut event ⊆ a.freePages

theorem Became.follows_out {pages : Set PhysicalPage} {event : Request × Answer}
    (h : Became a b (a.freePages \ pages)) (out : handedOut event = pages)
    (back : givenBack event = ∅) (legal : pages ⊆ a.freePages) : Follows a b event :=
  ⟨h.managing, by rw [h.free, freeAfter, out, back, Set.union_empty], h.sameMemory, out ▸ legal⟩

theorem Became.follows_back {pages : Set PhysicalPage} {event : Request × Answer}
    (h : Became a b (a.freePages ∪ pages)) (out : handedOut event = ∅)
    (back : givenBack event = pages) : Follows a b event :=
  ⟨h.managing, by rw [h.free, freeAfter, out, back, Set.sdiff_empty], h.sameMemory,
    by rw [out]; exact Set.empty_subset _⟩

theorem follows_of_same {event : Request × Answer} (hb : b.Managing)
    (free : b.freePages = a.freePages) (kept : SameMemory a b) (out : handedOut event = ∅)
    (back : givenBack event = ∅) : Follows a b event :=
  ⟨hb, by rw [free, freeAfter, out, back, Set.sdiff_empty, Set.union_empty], kept,
    by rw [out]; exact Set.empty_subset _⟩

theorem Managing.follows (ha : a.Managing) (step : request.run a = .ok answer b) :
    Follows a b (request, answer) := by
  cases request with
  | take =>
    obtain ⟨t, c, took, rest⟩ := step_bind_eq_ok.1 step
    cases rest
    rcases ha.take with ⟨-, e⟩ | ⟨p, d, free, -, e, became⟩
    · cases e.symm.trans took
      exact follows_of_same ha rfl (.refl a) rfl rfl
    · cases e.symm.trans took
      exact became.follows_out rfl rfl (Set.singleton_subset_iff.2 free)
  | release p =>
    obtain ⟨u, c, released, rest⟩ := step_bind_eq_ok.1 step
    cases rest
    rcases ha.release p with ⟨-, f, e⟩ | ⟨-, -, d, e, became⟩
    · exact nomatch e.symm.trans released
    · cases e.symm.trans released
      exact became.follows_back rfl rfl
  | takeRegion start stop =>
    obtain ⟨u, c, took, rest⟩ := step_bind_eq_ok.1 step
    cases rest
    rcases ha.takeRegion start stop with ⟨-, f, e⟩ | ⟨-, -, free, d, e, became⟩
    · exact nomatch e.symm.trans took
    · cases e.symm.trans took
      exact became.follows_out rfl rfl free
  | releaseRegion start stop =>
    obtain ⟨u, c, released, rest⟩ := step_bind_eq_ok.1 step
    cases rest
    rcases ha.releaseRegion start stop with ⟨-, f, e⟩ | ⟨-, -, -, d, e, became⟩
    · exact nomatch e.symm.trans released
    · cases e.symm.trans released
      exact became.follows_back rfl rfl
  | addUser p =>
    obtain ⟨n, c, added, rest⟩ := step_bind_eq_ok.1 step
    cases rest
    obtain ⟨-, -, counted⟩ := ha.counted_of_addUser added
    exact follows_of_same counted.managing counted.free counted.sameMemory rfl rfl
  | removeUser p =>
    obtain ⟨n, c, removed, rest⟩ := step_bind_eq_ok.1 step
    cases rest
    obtain ⟨-, -, counted⟩ := ha.counted_of_removeUser removed
    exact follows_of_same counted.managing counted.free counted.sameMemory rfl rfl

theorem Trace.follows (run : Trace a events b) (ha : a.Managing) :
    b.Managing ∧ b.freePages = events.foldl freeAfter a.freePages ∧ SameMemory a b := by
  induction run with
  | nil => exact ⟨ha, rfl, .refl a⟩
  | snoc run step ih =>
    obtain ⟨hb, free, kept⟩ := ih
    have next := hb.follows step
    refine ⟨next.managing, ?_, kept.trans next.sameMemory⟩
    rw [List.foldl_append, ← free]
    exact next.free

theorem Trace.handedOut_subset (run : Trace a events b) (ha : a.Managing)
    {early late : List (Request × Answer)} {event : Request × Answer}
    (split : events = early ++ event :: late) :
    handedOut event ⊆ early.foldl freeAfter a.freePages := by
  induction run generalizing late with
  | nil => simp at split
  | snoc run step ih =>
    -- The event is the last one, or the run up to the last one has it.
    rcases List.eq_nil_or_concat late with rfl | ⟨rest, last, rfl⟩
    · obtain ⟨rfl, same⟩ := List.append_inj' split rfl
      cases same
      obtain ⟨hb, free, -⟩ := run.follows ha
      rw [← free]
      exact (hb.follows step).legal
    · refine @ih rest ?_
      rw [List.concat_eq_append, ← List.cons_append, ← List.append_assoc] at split
      exact (List.append_inj' split rfl).1

theorem exists_givenBack {between : List (Request × Answer)} {free : Set PhysicalPage}
    (used : p ∉ free) (later : p ∈ between.foldl freeAfter free) :
    ∃ event ∈ between, p ∈ givenBack event := by
  induction between generalizing free with
  | nil => exact absurd later used
  | cons event rest ih =>
    by_cases back : p ∈ givenBack event
    · exact ⟨event, List.mem_cons_self, back⟩
    · have still : p ∉ freeAfter free event := by
        rintro (⟨was, -⟩ | now)
        · exact used was
        · exact back now
      obtain ⟨found, mem, gives⟩ := ih still later
      exact ⟨found, List.mem_cons_of_mem _ mem, gives⟩

theorem givenBack_of_handedOut {event : Request × Answer} (h : p ∈ handedOut event) :
    p ∉ givenBack event := by
  obtain ⟨request, answer⟩ := event
  cases request with
  | release q => exact h.elim
  | releaseRegion start stop => exact h.elim
  | _ => exact not_false

/-- Between two events that hand out a page there is one that gives it back. -/
theorem Trace.givenBack_between (run : Trace a events b) (ha : a.Managing)
    {early between late : List (Request × Answer)} {first second : Request × Answer}
    (split : events = early ++ first :: (between ++ second :: late))
    (hfirst : p ∈ handedOut first) (hsecond : p ∈ handedOut second) :
    ∃ event ∈ between, p ∈ givenBack event := by
  have whole : events = (early ++ first :: between) ++ second :: late := by
    rw [split, List.append_assoc, List.cons_append]
  have free := run.handedOut_subset ha whole hsecond
  rw [List.foldl_append, List.foldl_cons] at free
  -- Right behind the first of the two events the page is not free.
  refine exists_givenBack ?_ free
  rintro (⟨-, no⟩ | now)
  · exact no hfirst
  · exact givenBack_of_handedOut hfirst now

variable {memory : BootMemory} {image : Image} {storage : Words}

def freeAtStart (memory : BootMemory) (image : Image) (kernel : Nat) : Set PhysicalPage :=
  memory.pages \ regionPages image.physical (endOfFrames image.physical kernel)

theorem manages_iff_mem_pages (addressable : memory.Addressable)
    (lower : a.stats.lower = memory.lowerFrames) (upper : a.stats.upper = memory.upperFrames) :
    {p | a.stats.Manages p} = memory.pages := by
  have := addressable.lower
  ext p
  simp only [BootMemory.pages, Set.mem_ofPred_eq, Stats.Manages, lower, upper, firstUpperFrame,
    AddressMap.upperMemoryStart, Page.toNat_base]
  omega

theorem managing_of_setup (addressable : memory.Addressable)
    (ready : setup memory image storage = .ok (.ok a)) :
    a.Managing ∧ {p | a.stats.Manages p} = memory.pages ∧
      a.freePages = freeAtStart memory image a.stats.kernel ∧ ∀ p, a.users p = 0 := by
  obtain ⟨required, own, kernel, -, -, -, -, -, -, -, -, -, taken⟩ := setup_eq_ok ready
  let start := allFree memory kernel (storage.extract required storage.size)
  have fits : start.stats.Addressable := by
    have lower := addressable.lower
    have upper := addressable.upper
    refine ⟨rfl, lower, ?_⟩
    unfold AddressMap.upperMemoryStart at upper
    simp only [start, allFree, firstUpperFrame, pageCount]
    omega
  have hs : start.Managing :=
    { consistent_allFree addressable.total_lt with addressable := fits }
  have all : start.freePages = memory.pages := by
    rw [← manages_iff_mem_pages (a := start) addressable rfl rfl]
    ext p
    refine ⟨And.left, fun managed => ⟨managed, ?_⟩⟩
    rw [freeBit_allFree, decide_eq_true_eq]
    exact fits.indexOf_lt managed
  rcases hs.takeRegion image.physical (endOfFrames image.physical kernel) with ⟨-, f, e⟩ |
    ⟨-, -, -, b, e, became⟩
  · cases e.symm.trans taken
  · cases e.symm.trans taken
    have kept := became.sameMemory
    unfold SameMemory at kept
    refine ⟨became.managing, manages_iff_mem_pages addressable (by rw [kept]; rfl)
      (by rw [kept]; rfl), ?_, fun p => ?_⟩
    · rw [became.free, all, kept]
      rfl
    · rw [became.users]
      exact Counters.count_replicate_zero _ _

/-- An allocator acts as the set of free pages that the events of its run leave, and between two
events that hand out the same page there is one that gives it back. -/
theorem refines_free_set (addressable : memory.Addressable)
    (ready : setup memory image storage = .ok (.ok a)) (run : Trace a events b) :
    b.ActsAsSet memory.pages (events.foldl freeAfter (freeAtStart memory image a.stats.kernel)) ∧
      ∀ early first between second late p,
        events = early ++ first :: (between ++ second :: late) →
        p ∈ handedOut first → p ∈ handedOut second →
        ∃ event ∈ between, p ∈ givenBack event := by
  obtain ⟨ha, managed, free, -⟩ := managing_of_setup addressable ready
  obtain ⟨hb, reached, kept⟩ := run.follows ha
  have same : {p | b.stats.Manages p} = memory.pages := by
    rw [← managed]
    ext p
    exact kept.manages
  constructor
  · rw [← free, ← reached, ← same]
    exact hb.actsAsSet
  · intro early first between second late p split hfirst hsecond
    exact run.givenBack_between ha split hfirst hsecond

theorem refines_free_set_small :
    ∃ a b, setup ⟨8, 32⟩ smallImage (Array.replicate 7 0) = .ok (.ok a) ∧
      Trace a [(.take, .taken (.frame .first))] b ∧
      b.ActsAsSet (BootMemory.pages ⟨8, 32⟩)
        (freeAtStart ⟨8, 32⟩ smallImage a.stats.kernel \ {.first} ∪ ∅) := by
  obtain ⟨a, b, ready, step⟩ := exists_small_run
  have run := Trace.snoc .nil step
  exact ⟨a, b, ready, run, (refines_free_set ⟨by decide, by decide⟩ ready run).1⟩

end FrameAllocator
end Ia32Memory
