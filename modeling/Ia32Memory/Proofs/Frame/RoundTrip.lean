import Ia32Memory.Proofs.Frame.Reservation

/-! Indices and frames, one to one.
An index leads to a frame and the frame back to the index if lower memory ends at or below 1 MiB
and upper memory at or below 4 GiB.  A set-up looks at neither bound, and on every machine that is
beyond one of them some index is lost: a frame of lower memory is taken for one from 1 MiB on, or
a frame from 4 GiB on has the address of one far below. -/

namespace Ia32Memory

namespace Stats
variable {s : Stats} {i j : Nat}

def RoundTrips (s : Stats) : Prop :=
  ∀ i < s.total, ∃ p, s.frameAt i = .ok p ∧ s.frameIndex p = .ok i

theorem Addressable.roundTrips (h : s.Addressable) : s.RoundTrips := by
  intro i hi
  obtain ⟨p, frame, managed, rfl⟩ := h.frameAt_eq hi
  exact ⟨p, frame, h.frameIndex_of_manages managed⟩

theorem lt_total_of_frameAt {p : PhysicalPage} (h : s.frameAt i = .ok p) : i < s.total := by
  obtain ⟨j, required, -⟩ := except_bind_eq_ok.1 h
  obtain ⟨inside, rfl⟩ := requireIndex_eq_ok.1 required
  exact inside

theorem RoundTrips.index_eq (h : s.RoundTrips) (hi : i < s.total) (hj : j < s.total)
    (same : s.frameAt i = s.frameAt j) : i = j := by
  obtain ⟨p, frame, index⟩ := h i hi
  obtain ⟨q, frame', index'⟩ := h j hj
  cases frame'.symm.trans (same.symm.trans frame)
  exact Except.ok.inj (index.symm.trans index')

theorem RoundTrips.lower_le (h : s.RoundTrips) (total : s.total = s.lower + s.upper) :
    s.lower ≤ firstUpperFrame := by
  refine Nat.le_of_not_lt fun high => ?_
  unfold firstUpperFrame at high
  obtain ⟨p, frame, index⟩ := h 256 (by omega)
  rw [frameAt_of_lt (by omega), if_pos high] at frame
  cases frame
  unfold frameIndex firstUpperFrame at index
  rw [if_neg (by decide)] at index
  have same := (requireIndex_eq_ok.1 index).2
  rw [show (Page.truncate 256 : PhysicalPage).number = 256 from rfl] at same
  omega

/-- The frame at 4 GiB has the address of the first frame of all. -/
theorem frameAt_wraps (total : s.total = s.lower + s.upper)
    (beyond : pageCount < firstUpperFrame + s.upper) :
    s.lower + (pageCount - firstUpperFrame) < s.total ∧
      s.frameAt (s.lower + (pageCount - firstUpperFrame)) = .ok .first := by
  unfold pageCount firstUpperFrame at *
  have inside : s.lower + (0x100000 - 256) < s.total := by omega
  refine ⟨inside, ?_⟩
  rw [frameAt_of_lt inside, if_neg (by omega), firstUpperFrame,
    show s.lower + (0x100000 - 256) - s.lower + 256 = 0x100000 by omega]
  rfl

theorem RoundTrips.upper_le (h : s.RoundTrips) (total : s.total = s.lower + s.upper) :
    firstUpperFrame + s.upper ≤ pageCount := by
  refine Nat.le_of_not_lt fun beyond => ?_
  obtain ⟨inside, wraps⟩ := frameAt_wraps total beyond
  obtain ⟨p, frame, index⟩ := h _ inside
  cases wraps.symm.trans frame
  have number := number_of_frameIndex index (Nat.le_add_right ..)
  exact absurd number.1 (by decide)

theorem roundTrips_iff (total : s.total = s.lower + s.upper) :
    s.RoundTrips ↔ s.Addressable :=
  ⟨fun h => ⟨total, h.lower_le total, h.upper_le total⟩, Addressable.roundTrips⟩

end Stats

namespace FrameAllocator
variable {memory : BootMemory} {image : Image} {storage : Words} {a b : FrameAllocator}
  {events : List (Request × Answer)} {i : Nat} {p : PhysicalPage}

theorem frameAt_eq_ok : frameAt i a = .ok p b ↔ a.stats.frameAt i = .ok p ∧ b = a := by
  simp only [frameAt, step_get_bind]
  exact step_lift_eq_ok

theorem frameIndex_eq_ok : frameIndex p a = .ok i b ↔ a.stats.frameIndex p = .ok i ∧ b = a := by
  simp only [frameIndex, step_get_bind]
  exact step_lift_eq_ok

theorem addressable_iff (total : a.stats.total = memory.totalFrames)
    (lower : a.stats.lower = memory.lowerFrames) (upper : a.stats.upper = memory.upperFrames) :
    a.stats.Addressable ↔ memory.Addressable := by
  have limit : firstUpperFrame + memory.upperFrames ≤ pageCount ↔
      AddressMap.upperMemoryStart + memory.upperFrames * 4096 ≤ 0x100000000 := by
    unfold firstUpperFrame pageCount AddressMap.upperMemoryStart
    omega
  constructor
  · intro h
    exact ⟨lower ▸ h.lower, limit.1 (upper ▸ h.upper)⟩
  · intro h
    refine ⟨?_, lower ▸ h.lower, upper ▸ limit.2 h.upper⟩
    rw [total, lower, upper]
    rfl

/-- In every state of an allocator all indices lead to frames and back exactly if its memory is
addressable, and then no two of them lead to the same frame. -/
theorem indices_roundTrip_iff (reported : memory.Reported)
    (ready : setup memory image storage = .ok (.ok a)) (run : Trace a events b) :
    ((∀ i < b.stats.total, ∃ p : PhysicalPage, frameAt i b = .ok p b ∧ p.base.IsAligned ∧
        frameIndex p b = .ok i b) ↔ memory.Addressable) ∧
    (memory.Addressable → ∀ i j p, frameAt i b = .ok p b → frameAt j b = .ok p b → i = j) := by
  obtain ⟨ha, total, lower, upper⟩ := consistent_of_setup reported.total_lt ready
  obtain ⟨-, kept⟩ := run.consistent ha
  unfold SameMemory at kept
  have fits : b.stats.Addressable ↔ memory.Addressable :=
    addressable_iff (by rw [kept, total]) (by rw [kept, lower]) (by rw [kept, upper])
  have sum : b.stats.total = b.stats.lower + b.stats.upper := by
    rw [kept]
    exact ha.total
  simp only [frameAt_eq_ok, frameIndex_eq_ok, and_true, Page.isAligned_base, true_and]
  refine ⟨(Stats.roundTrips_iff sum).trans fits, fun addressable i j p hi hj => ?_⟩
  have trips := (fits.2 addressable).roundTrips
  exact trips.index_eq (Stats.lt_total_of_frameAt hi) (Stats.lt_total_of_frameAt hj)
    (hi.trans hj.symm)

theorem indices_roundTrip_iff_small :
    ∃ a b, setup ⟨8, 32⟩ smallImage (Array.replicate 7 0) = .ok (.ok a) ∧
      Trace a [(.take, .taken (.frame .first))] b ∧
      ∀ i < b.stats.total, ∃ p : PhysicalPage, frameAt i b = .ok p b ∧ p.base.IsAligned ∧
        frameIndex p b = .ok i b := by
  obtain ⟨a, b, ready, step⟩ := exists_small_run
  have run := Trace.snoc .nil step
  have trips := (indices_roundTrip_iff ⟨by decide, by decide⟩ ready run).1.2
  exact ⟨a, b, ready, run, trips ⟨by decide, by decide⟩⟩

/-- With 640 KiB of lower memory and an upper memory that ends one frame behind 4 GiB, the first
and the last index both lead to the first frame. -/
theorem first_frame_twice :
    ∃ a, setup ⟨640, 4193284⟩ smallImage (Array.replicate 557039 0) = .ok (.ok a) ∧
      a.stats.total = 1048481 ∧ frameAt 0 a = .ok .first a ∧ frameAt 1048480 a = .ok .first a ∧
      frameIndex .first a = .ok 0 a := by
  have reported : BootMemory.Reported ⟨640, 4193284⟩ := ⟨by decide, by decide⟩
  rcases setup_cases reported.total_small (by decide : smallImage.size < 0x100000000) (by decide)
    (Array.replicate 557039 0) with ⟨refused, -⟩ | ⟨-, a, ready, -⟩
  · refine absurd ⟨by decide, ?_, by decide, by decide, by decide⟩ refused
    rw [Array.size_replicate]
    decide
  · obtain ⟨-, total, lower, upper⟩ := consistent_of_setup reported.total_lt ready
    have total : a.stats.total = 1048481 := total
    have lower : a.stats.lower = 160 := lower
    refine ⟨a, ready, total, frameAt_eq_ok.2 ⟨?_, rfl⟩, frameAt_eq_ok.2 ⟨?_, rfl⟩,
      frameIndex_eq_ok.2 ⟨?_, rfl⟩⟩
    · rw [Stats.frameAt_of_lt (by rw [total]; decide), lower]
      rfl
    · rw [Stats.frameAt_of_lt (by rw [total]; decide), lower]
      rfl
    · rw [Stats.frameIndex, if_pos (by decide), lower, if_pos (by decide)]
      exact Stats.requireIndex_eq_ok.2 ⟨by rw [total]; decide, rfl⟩

end FrameAllocator
end Ia32Memory
