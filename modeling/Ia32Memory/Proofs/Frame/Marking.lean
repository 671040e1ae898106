import Ia32Memory.Proofs.Frame.Consistency

/-! Stretches of frames made free or used, as the two maps and the counts see it.
An allocator is consistent again once the stretch is marked in the fine map, the summary is brought
up to date and the counts are moved by the length of the stretch.  The summary is mended in two
ways: superframes wholly inside a stretch of used frames lose their marks unseen, others are looked
at again. -/

namespace Ia32Memory.FrameAllocator
variable {a b : FrameAllocator} {i k first count : Nat} {value : Bool}

def MarkedBits (value : Bool) (first count : Nat) (a b : FrameAllocator) : Prop :=
  ∀ i, b.freeBit i = if first ≤ i ∧ i < first + count then value else a.freeBit i

def recounted (a : FrameAllocator) (free used : Nat) : FrameAllocator :=
  { a with stats := { a.stats with free, used } }

theorem Shaped.recounted (h : Shaped a) (free used : Nat) : Shaped (a.recounted free used) :=
  { h with }

theorem countSet_of_shaped (h : Shaped a) :
    a.frames.countSet = (List.range a.stats.total).countP a.freeBit := by
  rw [Bitmap.countSet, h.frameBits]
  rfl

theorem markedBits_clearBit (h : b.frames = a.frames.clearBit i) : MarkedBits false i 1 a b := by
  intro j
  rw [freeBit, h, Bitmap.clearBit, Words.bit_clearBit]
  by_cases hj : j = i
  · simp [hj]
  · rw [if_neg (by omega)]
    simp [hj, freeBit]

theorem markedBits_setBit (shaped : Shaped a) (hi : i < a.stats.total)
    (h : b.frames = a.frames.setBit i) : MarkedBits true i 1 a b := by
  intro j
  rw [freeBit, h, Bitmap.setBit, Words.bit_setBit (shaped.bit_word_lt hi)]
  by_cases hj : j = i
  · simp [hj]
  · rw [if_neg (by omega)]
    simp [hj, freeBit]

theorem markedBits_clearRange (h : b.frames = a.frames.clearRange first count) :
    MarkedBits false first count a b := by
  intro j
  rw [freeBit, h, Bitmap.clearRange, Words.bit_clearRange_eq]
  rfl

theorem markedBits_setRange (shaped : Shaped a) (inside : first + count ≤ a.stats.total)
    (h : b.frames = a.frames.setRange first count) : MarkedBits true first count a b := by
  intro j
  rw [freeBit, h, Bitmap.setRange,
    Words.bit_setRange_eq (Nat.le_trans inside shaped.total_le_words)]
  rfl

theorem Consistent.count_freed (ha : Consistent a) (inside : first + count ≤ a.stats.total)
    (old : ∀ i, first ≤ i → i < first + count → a.freeBit i = false)
    (new : MarkedBits true first count a b) :
    (List.range a.stats.total).countP b.freeBit = a.stats.free + count := by
  rw [countP_range_marked inside old new, ha.free, countSet_of_shaped ha.toShaped]

theorem Consistent.count_used (ha : Consistent a) (inside : first + count ≤ a.stats.total)
    (old : ∀ i, first ≤ i → i < first + count → a.freeBit i = true)
    (new : MarkedBits false first count a b) :
    (List.range a.stats.total).countP b.freeBit + count = a.stats.free := by
  rw [ha.free, countSet_of_shaped ha.toShaped]
  refine (countP_range_marked inside (fun i lo hi => ?_) fun i => ?_).symm
  · rw [new i, if_pos ⟨lo, hi⟩]
  · by_cases here : first ≤ i ∧ i < first + count
    · rw [if_pos here, old i here.1 here.2]
    · rw [if_neg here, new i, if_neg here]

theorem MarkedBits.padding (ha : Consistent a) (inside : first + count ≤ a.stats.total)
    (new : MarkedBits value first count a b) (i : Nat) (out : a.stats.total ≤ i) :
    b.freeBit i = false := by
  rw [new i, if_neg (by omega)]
  exact ha.framePadding i out

theorem Consistent.le_used (ha : Consistent a) (inside : first + count ≤ a.stats.total)
    (old : ∀ i, first ≤ i → i < first + count → a.freeBit i = false) :
    count ≤ a.stats.used := by
  have counted := countP_range_marked (q := fun i =>
    if first ≤ i ∧ i < first + count then true else a.freeBit i) inside old fun _ => rfl
  rw [← countSet_of_shaped ha.toShaped, ← ha.free] at counted
  have most := (List.countP_le_length (l := List.range a.stats.total) (p := fun i =>
    if first ≤ i ∧ i < first + count then true else a.freeBit i))
  rw [counted, List.length_range] at most
  have sum := ha.used
  omega

theorem Consistent.le_free (ha : Consistent a) (inside : first + count ≤ a.stats.total)
    (old : ∀ i, first ≤ i → i < first + count → a.freeBit i = true) :
    count ≤ a.stats.free := by
  have counted := countP_range_marked (p := fun i =>
      if first ≤ i ∧ i < first + count then false else a.freeBit i) (q := a.freeBit) inside
    (fun i lo hi => if_pos ⟨lo, hi⟩) fun i => by
      by_cases here : first ≤ i ∧ i < first + count
      · rw [if_pos here, old i here.1 here.2]
      · rw [if_neg here, if_neg here]
  rw [← countSet_of_shaped ha.toShaped, ← ha.free] at counted
  omega

theorem Consistent.marked_free (ha : Consistent a) (inside : first + count ≤ a.stats.total)
    (old : ∀ i, first ≤ i → i < first + count → a.freeBit i = false)
    (new : MarkedBits true first count a b) (shaped : Shaped b)
    (stats : b.stats = { a.stats with
      free := a.stats.free + count, used := a.stats.used - count })
    (usage : b.usage = a.usage) (spare : b.spare = a.spare)
    (summary : b.SummaryBut fun _ => False)
    (padding : ∀ k, MapLayout.superframesFor b.stats.total ≤ k →
      b.superframes.words.bit k = false) : Marked true first count a b := by
  have counted := ha.count_freed inside old new
  have total : b.stats.total = a.stats.total := by rw [stats]
  have enough := ha.le_used inside old
  have sum := ha.used
  refine ⟨{ shaped with
    summary := summaryBut_none.1 summary
    free := ?_
    used := ?_
    framePadding := fun i out => new.padding ha inside i (total ▸ out)
    superframePadding := padding }, new, usage, spare, ?_⟩
  · rw [countSet_of_shaped shaped, total, counted, stats]
  · rw [stats]
    dsimp only
    omega
  · rw [stats]

theorem Consistent.marked_used (ha : Consistent a) (inside : first + count ≤ a.stats.total)
    (old : ∀ i, first ≤ i → i < first + count → a.freeBit i = true)
    (new : MarkedBits false first count a b) (shaped : Shaped b)
    (stats : b.stats = { a.stats with
      free := a.stats.free - count, used := a.stats.used + count })
    (usage : b.usage = a.usage) (spare : b.spare = a.spare)
    (summary : b.SummaryBut fun _ => False)
    (padding : ∀ k, MapLayout.superframesFor b.stats.total ≤ k →
      b.superframes.words.bit k = false) : Marked false first count a b := by
  have counted := ha.count_used inside old new
  have total : b.stats.total = a.stats.total := by rw [stats]
  have sum := ha.used
  refine ⟨{ shaped with
    summary := summaryBut_none.1 summary
    free := ?_
    used := ?_
    framePadding := fun i out => new.padding ha inside i (total ▸ out)
    superframePadding := padding }, new, usage, spare, ?_⟩
  · rw [countSet_of_shaped shaped, total, stats]
    dsimp only
    omega
  · rw [stats]
    dsimp only
    omega
  · rw [stats]

theorem setStats_take (enough : count ≤ a.stats.free) (small : a.stats.used + count < 1 <<< 64) :
    setStats (·.take count) a =
      .ok () (a.recounted (a.stats.free - count) (a.stats.used + count)) := by
  simp [setStats, Stats.take, recounted, minus_of_le enough, fit_of_lt small]

theorem setStats_release (enough : count ≤ a.stats.used)
    (small : a.stats.free + count < 1 <<< 64) :
    setStats (·.release count) a =
      .ok () (a.recounted (a.stats.free + count) (a.stats.used - count)) := by
  simp [setStats, Stats.release, recounted, minus_of_le enough, fit_of_lt small]

theorem Consistent.summary_of_used (ha : Consistent a) {frames : Bitmap}
    (new : MarkedBits false first count a { a with frames }) :
    SummaryBut { a with frames } fun k => ∃ i, first ≤ i ∧ i < first + count ∧ i / 1024 = k := by
  intro k hk
  have marked := ha.summary k hk
  constructor
  · rintro ⟨i, lo, hi, free⟩
    rw [new i] at free
    split at free
    · exact absurd free Bool.false_ne_true
    · exact marked.2 ⟨i, lo, hi, free⟩
  · intro set
    obtain ⟨i, lo, hi, free⟩ := marked.1 set
    by_cases here : first ≤ i ∧ i < first + count
    · exact Or.inr ⟨i, here.1, here.2, by omega⟩
    · exact Or.inl ⟨i, lo, hi, by rw [new i, if_neg here, free]⟩

theorem reviewed_padding (ha : Consistent a) {frames : Bitmap} (j : Nat)
    (out : MapLayout.superframesFor a.stats.total ≤ j) :
    (reviewed { a with frames } k).superframes.words.bit j = false := by
  rw [reviewed_bit]
  simp [ha.superframePadding j out]

/-- What the summary says after frames of a stretch were made free and their superframes marked. -/
theorem Consistent.summary_of_freed (ha : Consistent a) (inside : first + count ≤ a.stats.total)
    (new : MarkedBits true first count a b) (total : b.stats.total = a.stats.total)
    (marks : ∀ k < MapLayout.superframesFor a.stats.total, b.superframes.words.bit k = true ↔
      a.superframes.words.bit k = true ∨ ∃ i, first ≤ i ∧ i < first + count ∧ i / 1024 = k) :
    b.SummaryBut fun _ => False := by
  refine summaryBut_none.2 fun k hk => ?_
  rw [total] at hk
  rw [marks k hk, ha.summary k hk]
  unfold HasFree
  rw [total]
  constructor
  · rintro (⟨i, lo, hi, free⟩ | ⟨i, lo, hi, rfl⟩)
    · refine ⟨i, lo, hi, ?_⟩
      rw [new i, free, ite_self]
    · exact ⟨i, by omega, by omega, by rw [new i, if_pos ⟨lo, hi⟩]⟩
  · rintro ⟨i, lo, hi, free⟩
    by_cases here : first ≤ i ∧ i < first + count
    · exact Or.inr ⟨i, here.1, here.2, by omega⟩
    · rw [new i, if_neg here] at free
      exact Or.inl ⟨i, lo, hi, free⟩

/-- The allocator with the marks of a row of superframes taken away, if the row holds any. -/
def uncovered (a : FrameAllocator) (covered behind : Nat) : FrameAllocator :=
  { a with superframes :=
      if covered < behind then a.superframes.clearRange covered (behind - covered)
      else a.superframes }

theorem uncovered_bit (a : FrameAllocator) (covered behind k : Nat) :
    (a.uncovered covered behind).superframes.words.bit k =
      if covered ≤ k ∧ k < behind then false else a.superframes.words.bit k := by
  unfold uncovered
  by_cases some : covered < behind
  · simp only [if_pos some, Bitmap.clearRange, Words.bit_clearRange_eq]
    rw [show covered + (behind - covered) = behind by omega]
  · simp only [if_neg some]
    rw [if_neg (by omega)]

theorem Shaped.uncovered (h : Shaped a) (covered behind : Nat) :
    Shaped (a.uncovered covered behind) := by
  refine { h with superframeBits := ?_, superframeWords := ?_ }
  · refine Eq.trans ?_ h.superframeBits
    unfold FrameAllocator.uncovered
    split <;> rfl
  · refine Eq.trans ?_ h.superframeWords
    unfold FrameAllocator.uncovered
    split
    · exact Words.size_clearRange ..
    · rfl

theorem SummaryBut.uncovered (h : a.SummaryBut fun k =>
      ∃ i, first ≤ i ∧ i < first + count ∧ i / 1024 = k) (positive : 0 < count)
    (used : ∀ i, first ≤ i → i < first + count → a.freeBit i = false) :
    (a.uncovered (MapLayout.superframesFor first) ((first + count) / 1024)).SummaryBut fun k =>
      k = first / 1024 ∨ k = (first + count - 1) / 1024 := by
  intro k hk
  rw [uncovered_bit]
  obtain ⟨marked, justified⟩ := h k hk
  -- A superframe that is covered lies wholly inside the stretch, so it has no free frame.
  by_cases here : MapLayout.superframesFor first ≤ k ∧ k < (first + count) / 1024
  · rw [if_pos here]
    refine ⟨?_, fun h => absurd h Bool.false_ne_true⟩
    rintro ⟨i, lo, hi, free⟩
    have off := used i (by unfold MapLayout.superframesFor at here; omega) (by omega)
    rw [show freeBit (a.uncovered _ _) i = a.freeBit i from rfl, off] at free
    exact absurd free Bool.false_ne_true
  · rw [if_neg here]
    refine ⟨marked, fun bit => (justified bit).imp_right ?_⟩
    rintro ⟨i, lo, hi, rfl⟩
    unfold MapLayout.superframesFor at here
    omega

end Ia32Memory.FrameAllocator
