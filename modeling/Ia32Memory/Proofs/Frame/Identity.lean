import Ia32Memory.Proofs.Frame.Pages

/-! When two allocators are the same one.
Both maps and the counts follow from which pages are free, and the counters from the users of each
page.  What no page speaks of are the spare words, and the half of the last counter word that an
odd number of frames leaves over.  Operations on frames keep off these, so an allocator that has its
free pages and its users back is the same word for word. -/

namespace Ia32Memory

theorem Words.ext_bit {ws vs : Words} (size : vs.size = ws.size)
    (bits : ∀ b, vs.bit b = ws.bit b) : vs = ws := by
  refine Array.ext size fun w inside inside' => ?_
  apply BitVec.eq_of_getLsbD_eq
  intro i hi
  have same := bits (32 * w + i)
  rw [Words.bit_at _ _ hi, Words.bit_at _ _ hi] at same
  simpa [inside, inside'] using same

theorem Bitmap.ext_bit {m n : Bitmap} (capacity : n.capacity = m.capacity)
    (size : n.words.size = m.words.size) (bits : ∀ b, n.words.bit b = m.words.bit b) : n = m := by
  have words := Words.ext_bit size bits
  cases m
  cases n
  cases words
  cases capacity
  rfl

theorem Counters.ext_count {cs ds : Counters} (size : ds.size = cs.size)
    (counts : ∀ i, ds.count i = cs.count i) : ds = cs := by
  refine Array.ext size fun w inside inside' => ?_
  apply BitVec.eq_of_getLsbD_eq
  intro i hi
  -- Bit `i` of the word is bit `i % 16` of the counter in its half.
  have same := counts (2 * w + i / 16)
  unfold count Field.get half at same
  rw [show (2 * w + i / 16) / 2 = w by omega, show 16 * ((2 * w + i / 16) % 2) = 16 * (i / 16) by
    omega] at same
  have bits := congrArg (BitVec.getLsbD · (i % 16)) (BitVec.eq_of_toNat_eq same)
  have low : i % 16 < 16 := Nat.mod_lt _ (by decide)
  simpa [low, Nat.div_add_mod, inside, inside'] using bits

namespace FrameAllocator
variable {a b c : FrameAllocator} {p : PhysicalPage} {n : Nat}

/-- Whatever was done to an allocator, it was done to the maps and counters of its pages. -/
structure Confined (a b : FrameAllocator) : Prop where
  managing : b.Managing
  sameMemory : SameMemory a b
  spare : b.spare = a.spare
  beyond : ∀ i, a.stats.total ≤ i → b.usage.count i = a.usage.count i

theorem Managing.confined_refl (ha : a.Managing) : Confined a a :=
  ⟨ha, .refl a, rfl, fun _ _ => rfl⟩

theorem Confined.trans (h : Confined a b) (h' : Confined b c) : Confined a c := by
  refine ⟨h'.managing, h.sameMemory.trans h'.sameMemory, h'.spare.trans h.spare, fun i out => ?_⟩
  rw [h'.beyond i (h.sameMemory.total ▸ out), h.beyond i out]

theorem Marked.confined {value : Bool} {first count : Nat} (ha : a.Managing)
    (h : Marked value first count a b) : Confined a b :=
  ⟨h.managing ha, h.sameMemory, h.spare, fun i _ => by rw [h.usage]⟩

theorem confined_of_take {t : Taken} (ha : a.Managing) (e : take a = .ok t b) :
    Confined a b := by
  rcases take_eq_ok ha.toConsistent e with ⟨-, rfl, -⟩ | ⟨i, p, -, -, -, -, marked⟩
  · exact ha.confined_refl
  · exact marked.confined ha

theorem confined_of_release (ha : a.Managing) (e : release p a = .ok () b) :
    Confined a b := by
  obtain ⟨i, -, -, marked⟩ := release_eq_ok ha.toConsistent e
  exact marked.confined ha

theorem Managing.confined_put {i : Nat} (ha : a.Managing) (index : a.stats.frameIndex p = .ok i)
    (small : n ≤ Counters.max) : Confined a { a with usage := a.usage.put i n } := by
  have inside := Stats.lt_total_of_frameIndex index
  have word : i / 2 < a.usage.size := by
    rw [ha.counters]
    omega
  refine ⟨?_, rfl, rfl, fun j out => ?_⟩
  · exact { ha.with_usage (Counters.size_put ..) with addressable := ha.addressable }
  · rw [Counters.count_put word small, if_neg (by omega)]

theorem confined_of_addUser (ha : a.Managing) (e : addUser p a = .ok n b) :
    Confined a b := by
  rcases addUser_cases ha.toShaped p with ⟨f, -, e'⟩ | ⟨i, index, ⟨-, e'⟩ | ⟨room, e'⟩⟩
  · exact nomatch e'.symm.trans e
  · exact nomatch e'.symm.trans e
  · cases e'.symm.trans e
    have small : a.usage.count i ≤ Counters.max := Nat.le_of_lt_succ (BitVec.isLt _)
    exact ha.confined_put index (Nat.lt_of_le_of_ne small room)

theorem confined_of_removeUser (ha : a.Managing) (e : removeUser p a = .ok n b) :
    Confined a b := by
  rcases removeUser_cases ha.toShaped p with ⟨f, -, e'⟩ | ⟨i, index, ⟨-, e'⟩ | ⟨-, e'⟩⟩
  · exact nomatch e'.symm.trans e
  · exact nomatch e'.symm.trans e
  · cases e'.symm.trans e
    have small : a.usage.count i ≤ Counters.max := Nat.le_of_lt_succ (BitVec.isLt _)
    exact ha.confined_put index (Nat.le_trans (Nat.sub_le ..) small)

theorem Consistent.superframeBit_eq (ha : a.Consistent) (hb : b.Consistent)
    (total : b.stats.total = a.stats.total) (bits : ∀ i, b.freeBit i = a.freeBit i) (k : Nat) :
    b.superframes.words.bit k = a.superframes.words.bit k := by
  by_cases inside : k < MapLayout.superframesFor a.stats.total
  · rw [Bool.eq_iff_iff, ha.summary k inside, hb.summary k (total ▸ inside)]
    unfold HasFree
    simp only [bits, total]
  · have out : MapLayout.superframesFor a.stats.total ≤ k := Nat.le_of_not_lt inside
    rw [ha.superframePadding k out, hb.superframePadding k (total ▸ out)]

theorem Consistent.eq_of_bits (ha : a.Consistent) (hb : b.Consistent) (kept : SameMemory a b)
    (bits : ∀ i, b.freeBit i = a.freeBit i) (usage : b.usage = a.usage)
    (spare : b.spare = a.spare) : b = a := by
  have total := kept.total
  have frames : b.frames = a.frames := by
    refine Bitmap.ext_bit ?_ ?_ bits
    · rw [hb.frameBits, ha.frameBits, total]
    · rw [hb.frameWords, ha.frameWords, total]
  have superframes : b.superframes = a.superframes := by
    refine Bitmap.ext_bit ?_ ?_ (ha.superframeBit_eq hb total bits)
    · rw [hb.superframeBits, ha.superframeBits, total]
    · rw [hb.superframeWords, ha.superframeWords, total]
  have stats : b.stats = a.stats := by
    have count : b.stats.free = a.stats.free := by rw [hb.free, ha.free, frames]
    have used : b.stats.used = a.stats.used := by
      have := hb.used
      have := ha.used
      omega
    unfold SameMemory at kept
    rw [kept, count, used]
  cases a
  cases b
  simp only at frames superframes usage stats spare
  rw [frames, superframes, usage, stats, spare]

theorem Managing.freeBit_eq (ha : a.Managing) (h : Confined a b)
    (free : b.freePages = a.freePages) (i : Nat) : b.freeBit i = a.freeBit i := by
  have total := h.sameMemory.total
  by_cases inside : i < a.stats.total
  · obtain ⟨p, -, managed, rfl⟩ := ha.addressable.frameAt_eq inside
    have index := h.sameMemory.indexOf (p := p)
    rw [Bool.eq_iff_iff, ← mem_freePages managed, ← free,
      mem_freePages (h.sameMemory.manages.2 managed), index]
  · have out : a.stats.total ≤ i := Nat.le_of_not_lt inside
    rw [ha.framePadding i out, h.managing.framePadding i (total ▸ out)]

theorem Managing.count_eq (ha : a.Managing) (h : Confined a b)
    (users : ∀ p, a.stats.Manages p → b.users p = a.users p) (i : Nat) :
    b.usage.count i = a.usage.count i := by
  by_cases inside : i < a.stats.total
  · obtain ⟨p, -, managed, rfl⟩ := ha.addressable.frameAt_eq inside
    have same := users p managed
    unfold FrameAllocator.users at same
    rwa [h.sameMemory.indexOf] at same
  · exact h.beyond i (Nat.le_of_not_lt inside)

/-- An allocator that has its free pages and users back is the same one. -/
theorem Managing.eq_of_confined (ha : a.Managing) (h : Confined a b)
    (free : b.freePages = a.freePages)
    (users : ∀ p, a.stats.Manages p → b.users p = a.users p) : b = a := by
  have size : b.usage.size = a.usage.size := by
    rw [h.managing.counters, ha.counters, h.sameMemory.total]
  exact ha.toConsistent.eq_of_bits h.managing.toConsistent h.sameMemory (ha.freeBit_eq h free)
    (Counters.ext_count size (ha.count_eq h users)) h.spare

end FrameAllocator
end Ia32Memory
