import Ia32Memory.Frame.Allocator
import Ia32Memory.Proofs.Bits.Ranges

/-! What holds of an allocator between operations.
The maps have the sizes that the frame count asks for, the coarse map is a summary of the fine
one, the counts are those of the fine map, and padding is clear.  While an operation is under way
the summary may lag behind: a superframe may still be marked free after its last frame was taken.
Such superframes are named, and looking at one of them again takes it off the list. -/

namespace Ia32Memory

theorem Bitmap.requireRange_of_le {m : Bitmap} {first count : Nat}
    (inside : first + count ≤ m.capacity) (small : first + count < 1 <<< 64) :
    m.requireRange first count = .ok () := by
  rw [Bitmap.requireRange, fit, if_pos small]
  exact if_pos inside

theorem Bitmap.requireBit_of_lt {m : Bitmap} {b : Nat} (inside : b < m.capacity) :
    m.requireBit b = .ok () :=
  if_pos inside

theorem countP_range_marked {p q : Nat → Bool} {first count n : Nat}
    (inside : first + count ≤ n) (old : ∀ i, first ≤ i → i < first + count → p i = false)
    (new : ∀ i, q i = if first ≤ i ∧ i < first + count then true else p i) :
    (List.range n).countP q = (List.range n).countP p + count := by
  have upTo : ∀ n, (List.range n).countP q =
      (List.range n).countP p + (min n (first + count) - min n first) := by
    intro n
    induction n with
    | zero => simp
    | succ n ih =>
      simp only [List.range_succ, List.countP_append, List.countP_singleton, ih, new n]
      by_cases here : first ≤ n ∧ n < first + count
      · simp only [here, old n here.1 here.2, and_self, if_true, Bool.false_eq_true, if_false]
        omega
      · simp only [if_neg here]
        omega
  rw [upTo n]
  omega

namespace FrameAllocator

def freeBit (a : FrameAllocator) (i : Nat) : Bool := a.frames.words.bit i

/-- The maps are as large as the frame count asks for. -/
structure Shaped (a : FrameAllocator) : Prop where
  total : a.stats.total = a.stats.lower + a.stats.upper
  small : a.stats.total < 1 <<< 64
  frameBits : a.frames.capacity = a.stats.total
  superframeBits : a.superframes.capacity = MapLayout.superframesFor a.stats.total
  frameWords : a.frames.words.size = wordsFor a.stats.total
  superframeWords : a.superframes.words.size = wordsFor (MapLayout.superframesFor a.stats.total)
  counters : a.usage.size = (a.stats.total + 1) / 2

def HasFree (a : FrameAllocator) (k : Nat) : Prop :=
  ∃ i, 1024 * k ≤ i ∧ i < min (1024 * (k + 1)) a.stats.total ∧ a.freeBit i = true

/-- Superframes with a free frame are marked, others only where the summary lags behind. -/
def SummaryBut (a : FrameAllocator) (lagging : Nat → Prop) : Prop :=
  ∀ k < MapLayout.superframesFor a.stats.total,
    (a.HasFree k → a.superframes.words.bit k = true) ∧
      (a.superframes.words.bit k = true → a.HasFree k ∨ lagging k)

structure Consistent (a : FrameAllocator) : Prop extends Shaped a where
  summary : ∀ k < MapLayout.superframesFor a.stats.total,
    a.superframes.words.bit k = true ↔ a.HasFree k
  free : a.stats.free = a.frames.countSet
  used : a.stats.free + a.stats.used = a.stats.total
  framePadding : ∀ i, a.stats.total ≤ i → a.freeBit i = false
  superframePadding : ∀ k, MapLayout.superframesFor a.stats.total ≤ k →
    a.superframes.words.bit k = false

/-- `b` is `a` with a stretch of frames made free, or made used, and consistent. -/
structure Marked (value : Bool) (first count : Nat) (a b : FrameAllocator) : Prop where
  consistent : b.Consistent
  bits : ∀ i, b.freeBit i = if first ≤ i ∧ i < first + count then value else a.freeBit i
  usage : b.usage = a.usage
  spare : b.spare = a.spare
  stats : b.stats = { a.stats with free := b.stats.free, used := b.stats.used }

variable {a b : FrameAllocator} {i k first count : Nat} {lagging : Nat → Prop}

theorem lt_superframesFor (h : i < a.stats.total) :
    i / 1024 < MapLayout.superframesFor a.stats.total := by
  unfold MapLayout.superframesFor
  omega

theorem Shaped.bit_word_lt (h : Shaped a) (hi : i < a.stats.total) :
    i / 32 < a.frames.words.size := by
  rw [h.frameWords, wordsFor]
  omega

theorem Shaped.superframe_word_lt (h : Shaped a)
    (hk : k < MapLayout.superframesFor a.stats.total) : k / 32 < a.superframes.words.size := by
  rw [h.superframeWords, wordsFor]
  omega

theorem Shaped.total_le_words (h : Shaped a) : a.stats.total ≤ 32 * a.frames.words.size := by
  rw [h.frameWords, wordsFor]
  omega

theorem Shaped.superframes_le_words (h : Shaped a) :
    MapLayout.superframesFor a.stats.total ≤ 32 * a.superframes.words.size := by
  rw [h.superframeWords, wordsFor]
  omega

theorem summaryBut_none :
    a.SummaryBut (fun _ => False) ↔
      ∀ k < MapLayout.superframesFor a.stats.total,
        a.superframes.words.bit k = true ↔ a.HasFree k := by
  simp only [SummaryBut, or_false]
  exact ⟨fun h k hk => ⟨(h k hk).2, (h k hk).1⟩, fun h k hk => ⟨(h k hk).2, (h k hk).1⟩⟩

theorem SummaryBut.mono {other : Nat → Prop} (h : a.SummaryBut lagging)
    (weaker : ∀ k < MapLayout.superframesFor a.stats.total, lagging k → other k) :
    a.SummaryBut other :=
  fun k hk => ⟨(h k hk).1, fun hb => (h k hk).2 hb |>.imp_right (weaker k hk)⟩

def full (a : FrameAllocator) (k : Nat) : Bool :=
  a.frames.words.allClear (k * 1024) (min 1024 (a.stats.total - k * 1024))

/-- The mark of a superframe, taken away if none of its frames is free. -/
def reviewed (a : FrameAllocator) (k : Nat) : FrameAllocator :=
  { a with superframes := if a.full k then a.superframes.clearBit k else a.superframes }

theorem full_iff (hk : k < MapLayout.superframesFor a.stats.total) :
    a.full k = true ↔ ¬a.HasFree k := by
  have here : k * 1024 < a.stats.total := by
    unfold MapLayout.superframesFor at hk
    omega
  have stop : k * 1024 + min 1024 (a.stats.total - k * 1024) =
      min (1024 * (k + 1)) a.stats.total := by omega
  rw [full, Words.allClear_iff, stop]
  constructor
  · rintro clear ⟨i, lo, hi, free⟩
    rw [freeBit, clear i (by omega) hi] at free
    exact Bool.false_ne_true free
  · intro none i lo hi
    exact Bool.eq_false_iff.2 fun set => none ⟨i, by omega, hi, set⟩

theorem superframeFull_eq (h : Shaped a) (hk : k < MapLayout.superframesFor a.stats.total) :
    superframeFull k a = .ok (a.full k) a := by
  have here : k * 1024 < a.stats.total := by
    unfold MapLayout.superframesFor at hk
    omega
  have words := h.total_le_words
  have stop : k * 1024 + min 1024 (a.stats.total - k * 1024) ≤ a.stats.total := by omega
  have present : a.frames.words.requireRange (k * 1024) (min 1024 (a.stats.total - k * 1024)) =
      .ok () := 
    Words.requireRange_of_le (by omega) (Nat.lt_of_le_of_lt stop h.small)
  simp [superframeFull, AddressMap.superframe, minus, Nat.le_of_lt here, Bitmap.allClear,
    Words.allClearChecked_eq, present, full]

theorem clearFullSuperframe_eq (h : Shaped a)
    (hk : k < MapLayout.superframesFor a.stats.total) :
    clearFullSuperframe k a = .ok () (a.reviewed k) := by
  have inside : k < a.superframes.capacity := by rwa [h.superframeBits]
  unfold clearFullSuperframe
  rw [step_bind_ok (superframeFull_eq h hk)]
  by_cases hf : a.full k = true
  · simp [hf, Bitmap.requireBit_of_lt inside, reviewed]
  · simp [hf, reviewed]

@[simp] theorem reviewed_frames (a : FrameAllocator) (k : Nat) :
    (a.reviewed k).frames = a.frames := rfl

@[simp] theorem reviewed_stats (a : FrameAllocator) (k : Nat) :
    (a.reviewed k).stats = a.stats := rfl

theorem reviewed_bit (a : FrameAllocator) (k j : Nat) :
    (a.reviewed k).superframes.words.bit j =
      (a.superframes.words.bit j && !(a.full k && decide (j = k))) := by
  unfold reviewed
  by_cases hf : a.full k = true
  · rw [if_pos hf, hf]
    by_cases hj : j = k <;> simp [Bitmap.clearBit, Words.bit_clearBit, hj]
  · simp [hf]

theorem Shaped.reviewed (h : Shaped a) (k : Nat) : Shaped (a.reviewed k) := by
  refine { h with superframeBits := ?_, superframeWords := ?_ }
  · rw [reviewed_stats, ← h.superframeBits]
    unfold FrameAllocator.reviewed
    split <;> rfl
  · rw [reviewed_stats, ← h.superframeWords]
    unfold FrameAllocator.reviewed
    split
    · exact Words.size_clearBit _ _
    · rfl

theorem hasFree_reviewed (j : Nat) : (a.reviewed k).HasFree j ↔ a.HasFree j := by
  simp [HasFree, freeBit]

theorem SummaryBut.reviewed (h : a.SummaryBut lagging)
    (hk : k < MapLayout.superframesFor a.stats.total) :
    (a.reviewed k).SummaryBut fun j => lagging j ∧ j ≠ k := by
  intro j hj
  rw [reviewed_stats] at hj
  simp only [hasFree_reviewed, reviewed_bit, Bool.and_eq_true, Bool.not_eq_true',
    Bool.and_eq_false_iff, decide_eq_false_iff_not]
  obtain ⟨marked, justified⟩ := h j hj
  constructor
  · intro free
    refine ⟨marked free, ?_⟩
    by_cases same : j = k
    · subst same
      exact Or.inl (Bool.eq_false_iff.2 fun hf => (full_iff hj).1 hf free)
    · exact Or.inr same
  · rintro ⟨bit, current⟩
    by_cases free : a.HasFree j
    · exact Or.inl free
    · refine Or.inr ⟨(justified bit).resolve_left free, fun same => ?_⟩
      subst same
      rw [(full_iff hj).2 free] at current
      simp at current

end FrameAllocator
end Ia32Memory
