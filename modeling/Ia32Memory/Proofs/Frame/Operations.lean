import Ia32Memory.Proofs.Bits.Scans
import Ia32Memory.Proofs.Frame.Marking
import Ia32Memory.Proofs.Frame.Numbering

/-! What the operations of an allocator do, frame by frame.
Each of the four that move frames marks one stretch of the fine map and leaves the allocator
consistent; the tests that they make beforehand decide between that and a fault, at which nothing
has been changed.  Counters of users have no part in this and go their own way. -/

namespace Ia32Memory.FrameAllocator
variable {a b : FrameAllocator} {i first count : Nat} {p : PhysicalPage}

theorem Consistent.free_eq_zero (ha : Consistent a)
    (none : ∀ i < a.stats.total, a.freeBit i = false) : a.stats.free = 0 := by
  rw [ha.free, countSet_of_shaped ha.toShaped, List.countP_eq_zero]
  intro i hi
  simp [none i (List.mem_range.1 hi)]

theorem take_of_none_free (ha : Consistent a) (none : ∀ i < a.stats.total, a.freeBit i = false) :
    take a = .ok .exhausted a := by
  simp [take, ha.free_eq_zero none]

theorem take_of_lowest (ha : Consistent a) (hi : i < a.stats.total) (free : a.freeBit i = true)
    (lowest : ∀ j < i, a.freeBit j = false) :
    ∃ p b, a.stats.frameAt i = .ok p ∧ take a = .ok (.frame p) b ∧ Marked false i 1 a b := by
  have hk := lt_superframesFor hi
  have old : ∀ j, i ≤ j → j < i + 1 → a.freeBit j = true := by
    intro j lo hi
    rwa [show j = i by omega]
  have enough : 1 ≤ a.stats.free := ha.le_free (by omega) old
  -- The summary shows no group before that of the lowest free frame.
  have group : a.superframes.findFirstSet = some (i / 1024) := by
    refine Words.findFrom_eq_some.2 ⟨by omega, ?_, ha.superframe_word_lt hk, ?_, fun k _ hlt => ?_⟩
    · rw [ha.superframeBits]
      omega
    · exact (ha.summary _ hk).2 ⟨i, by omega, by omega, free⟩
    · refine Bool.eq_false_iff.2 fun set => ?_
      obtain ⟨j, lo, hj, freeJ⟩ := (ha.summary k (by omega)).1 set
      rw [lowest j (by omega)] at freeJ
      exact Bool.false_ne_true freeJ
  have found : a.frames.findFirstSetIn (i / 1024 * 1024) 1024 = .ok (some i) := by
    have few : a.frames.capacity < 1 <<< 64 := by
      rw [ha.frameBits]
      exact ha.small
    rw [Bitmap.findFirstSetIn_eq few (by omega), Except.ok.injEq]
    refine Words.findFrom_eq_some.2 ⟨by omega, ?_, ha.bit_word_lt hi, free, fun j _ hlt => ?_⟩
    · rw [ha.frameBits]
      omega
    · exact lowest j hlt
  have inside : i < a.frames.capacity := by rwa [ha.frameBits]
  let cleared : FrameAllocator := { a with frames := a.frames.clearBit i }
  have new : MarkedBits false i 1 a cleared := markedBits_clearBit rfl
  have shaped : Shaped cleared :=
    { ha.toShaped with
      frameWords := by simpa [cleared, Bitmap.clearBit] using ha.frameWords }
  have review := clearFullSuperframe_eq shaped hk
  have small : a.stats.used + 1 < 1 <<< 64 := by
    have := ha.used
    exact Nat.lt_of_le_of_lt (by omega) ha.small
  let counted := (cleared.reviewed (i / 1024)).recounted (a.stats.free - 1) (a.stats.used + 1)
  have counts : setStats (·.take 1) (cleared.reviewed (i / 1024)) = .ok () counted :=
    setStats_take enough small
  refine ⟨_, counted, Stats.frameAt_of_lt hi, ?_, ?_⟩
  · unfold take
    simp only [step_get_bind, if_neg (show ¬a.stats.free = 0 by omega), group, found,
      AddressMap.superframe, step_lift_ok_bind, Bitmap.requireBit_of_lt inside,
      step_modify_bind]
    rw [step_bind_ok review, step_bind_ok counts, step_get_bind,
      Stats.frameAt_of_lt (show i < counted.stats.total from hi)]
    rfl
  · refine ha.marked_used (by omega) old new ((shaped.reviewed _).recounted _ _) rfl rfl rfl ?_ ?_
    · exact ((ha.summary_of_used new).reviewed hk).mono fun k _ => by
        rintro ⟨⟨j, lo, hj, rfl⟩, other⟩
        exact other (by rw [show j = i by omega])
    · exact reviewed_padding ha

theorem release_of_free (ha : Consistent a) (index : a.stats.frameIndex p = .ok i)
    (free : a.freeBit i = true) : release p a = .error (.alreadyFree p) a := by
  have inside : i < a.frames.capacity := by
    rw [ha.frameBits]
    exact Stats.lt_total_of_frameIndex index
  have bit : a.frames.words.bit i = true := free
  simp [release, index, Bitmap.get, Bitmap.requireBit_of_lt inside, bit]

theorem release_of_used (ha : Consistent a) (index : a.stats.frameIndex p = .ok i)
    (used : a.freeBit i = false) : ∃ b, release p a = .ok () b ∧ Marked true i 1 a b := by
  have hi := Stats.lt_total_of_frameIndex index
  have hk := lt_superframesFor hi
  have old : ∀ j, i ≤ j → j < i + 1 → a.freeBit j = false := by
    intro j lo hi
    rwa [show j = i by omega]
  have enough : 1 ≤ a.stats.used := ha.le_used (by omega) old
  have small : a.stats.free + 1 < 1 <<< 64 := by
    have := ha.used
    exact Nat.lt_of_le_of_lt (by omega) ha.small
  have inside : i < a.frames.capacity := by rwa [ha.frameBits]
  have group : i / 1024 < a.superframes.capacity := by rwa [ha.superframeBits]
  have bit : a.frames.words.bit i = false := used
  let set : FrameAllocator :=
    { a with frames := a.frames.setBit i, superframes := a.superframes.setBit (i / 1024) }
  let counted := set.recounted (a.stats.free + 1) (a.stats.used - 1)
  have counts : setStats (·.release 1) set = .ok () counted := setStats_release enough small
  have new : MarkedBits true i 1 a counted := markedBits_setBit ha.toShaped hi rfl
  have shaped : Shaped set :=
    { ha.toShaped with
      frameWords := by simpa [set, Bitmap.setBit] using ha.frameWords
      superframeWords := by simpa [set, Bitmap.setBit] using ha.superframeWords }
  have marks : ∀ k, counted.superframes.words.bit k =
      (a.superframes.words.bit k || decide (k = i / 1024)) :=
    Words.bit_setBit (ha.superframe_word_lt hk)
  refine ⟨counted, ?_, ?_⟩
  · simp only [release, step_get_bind, index, step_lift_ok_bind, Bitmap.get,
      Bitmap.requireBit_of_lt inside, bit, Bool.false_eq_true, if_false,
      AddressMap.superframe, Bitmap.requireBit_of_lt group, except_ok_bind, pure, Except.pure]
    exact counts
  · refine ha.marked_free (by omega) old new (shaped.recounted _ _) rfl rfl rfl ?_ fun k out => ?_
    · refine ha.summary_of_freed (by omega) new rfl fun k _ => ?_
      rw [marks k, Bool.or_eq_true, decide_eq_true_eq]
      refine or_congr_right ⟨fun h => ⟨i, by omega, by omega, h.symm⟩, ?_⟩
      rintro ⟨j, lo, hi, rfl⟩
      rw [show j = i by omega]
    · have beyond : k ≠ i / 1024 := fun h => absurd hk (Nat.not_lt.2 (h ▸ out))
      rw [marks k, ha.superframePadding k out]
      simp [beyond]

theorem allSet_eq (ha : Consistent a) (inside : first + count ≤ a.stats.total) :
    a.frames.allSet first count = .ok (a.frames.words.allSet first count) := by
  have words := ha.total_le_words
  simp [Bitmap.allSet, Words.allSetChecked_eq, Words.requireRange_of_le (Nat.le_trans inside words)
    (Nat.lt_of_le_of_lt inside ha.small)]

theorem allClear_eq (ha : Consistent a) (inside : first + count ≤ a.stats.total) :
    a.frames.allClear first count = .ok (a.frames.words.allClear first count) := by
  have words := ha.total_le_words
  simp [Bitmap.allClear, Words.allClearChecked_eq,
    Words.requireRange_of_le (Nat.le_trans inside words) (Nat.lt_of_le_of_lt inside ha.small)]

variable {start stop : PhysicalAddress}

theorem takeRegion_of_empty (region : a.stats.region start stop = .ok none) :
    takeRegion start stop a = .ok () a := by
  simp [takeRegion, region]

theorem releaseRegion_of_empty (region : a.stats.region start stop = .ok none) :
    releaseRegion start stop a = .ok () a := by
  simp [releaseRegion, region]

theorem takeRegion_of_used (ha : Consistent a)
    (region : a.stats.region start stop = .ok (some (first, count)))
    (inside : first + count ≤ a.stats.total) (lo : first ≤ i) (hi : i < first + count)
    (used : a.freeBit i = false) :
    takeRegion start stop a = .error (.regionNotFree start stop) a := by
  have refused : a.frames.words.allSet first count = false := by
    refine Bool.eq_false_iff.2 fun all => ?_
    rw [freeBit, (Words.allSet_iff ..).1 all i lo hi] at used
    exact Bool.noConfusion used
  simp [takeRegion, region, allSet_eq ha inside, refused]

theorem releaseRegion_of_free (ha : Consistent a)
    (region : a.stats.region start stop = .ok (some (first, count)))
    (inside : first + count ≤ a.stats.total) (lo : first ≤ i) (hi : i < first + count)
    (free : a.freeBit i = true) :
    releaseRegion start stop a = .error (.regionNotAllocated start stop) a := by
  have refused : a.frames.words.allClear first count = false := by
    refine Bool.eq_false_iff.2 fun all => ?_
    rw [freeBit, (Words.allClear_iff ..).1 all i lo hi] at free
    exact Bool.noConfusion free
  simp [releaseRegion, region, allClear_eq ha inside, refused]

theorem releaseRegion_of_all_used (ha : Consistent a)
    (region : a.stats.region start stop = .ok (some (first, count))) (positive : 0 < count)
    (inside : first + count ≤ a.stats.total)
    (used : ∀ i, first ≤ i → i < first + count → a.freeBit i = false) :
    ∃ b, releaseRegion start stop a = .ok () b ∧ Marked true first count a b := by
  have enough : count ≤ a.stats.used := ha.le_used inside used
  have small : a.stats.free + count < 1 <<< 64 := by
    have := ha.used
    exact Nat.lt_of_le_of_lt (by omega) ha.small
  have all : a.frames.words.allClear first count = true := (Words.allClear_iff ..).2 used
  let touched := first / 1024
  let behind := MapLayout.superframesFor (first + count)
  have order : touched ≤ behind := by
    simp only [touched, behind, MapLayout.superframesFor]
    omega
  have groups : behind ≤ MapLayout.superframesFor a.stats.total := by
    simp only [behind, MapLayout.superframesFor]
    omega
  have fits : touched + (behind - touched) ≤ a.superframes.capacity := by
    rw [ha.superframeBits]
    omega
  have few : touched + (behind - touched) < 1 <<< 64 := by
    refine Nat.lt_of_le_of_lt (m := a.stats.total) ?_ ha.small
    simp only [touched, behind, MapLayout.superframesFor]
    omega
  have whole : first + count ≤ a.frames.capacity := by rwa [ha.frameBits]
  let set : FrameAllocator :=
    { a with
      frames := a.frames.setRange first count
      superframes := a.superframes.setRange touched (behind - touched) }
  let counted := set.recounted (a.stats.free + count) (a.stats.used - count)
  have counts : setStats (·.release count) set = .ok () counted := setStats_release enough small
  have new : MarkedBits true first count a counted := markedBits_setRange ha.toShaped inside rfl
  have shaped : Shaped set :=
    { ha.toShaped with
      frameWords := by simpa [set, Bitmap.setRange] using ha.frameWords
      superframeWords := by simpa [set, Bitmap.setRange] using ha.superframeWords }
  have marks : ∀ k, counted.superframes.words.bit k =
      if touched ≤ k ∧ k < touched + (behind - touched) then true
      else a.superframes.words.bit k :=
    Words.bit_setRange_eq (by have := ha.superframes_le_words; omega)
  refine ⟨counted, ?_, ?_⟩
  · simp only [releaseRegion, step_get_bind, region, step_lift_ok_bind, allClear_eq ha inside, all,
      Bitmap.requireRange_of_le whole (Nat.lt_of_le_of_lt inside ha.small), if_true,
      AddressMap.superframe, step_modify_bind]
    rw [Bitmap.requireRange_of_le fits few]
    exact counts
  · refine ha.marked_free inside used new (shaped.recounted _ _) rfl rfl rfl ?_ fun k out => ?_
    · refine ha.summary_of_freed inside new rfl fun k _ => ?_
      -- The superframes that are marked are those that the region meets.
      have met : (touched ≤ k ∧ k < touched + (behind - touched)) ↔
          ∃ i, first ≤ i ∧ i < first + count ∧ i / 1024 = k := by
        simp only [touched, behind, MapLayout.superframesFor]
        constructor
        · intro between
          exact ⟨max first (1024 * k), by omega, by omega, by omega⟩
        · rintro ⟨i, lo, hi, rfl⟩
          omega
      rw [marks k, ← met]
      by_cases here : touched ≤ k ∧ k < touched + (behind - touched)
      · simp [here]
      · rw [if_neg here]
        exact (or_iff_left here).symm
    · have out : MapLayout.superframesFor a.stats.total ≤ k := out
      rw [marks k, if_neg (by omega), ha.superframePadding k out]

theorem takeRegion_of_all_free (ha : Consistent a)
    (region : a.stats.region start stop = .ok (some (first, count))) (positive : 0 < count)
    (inside : first + count ≤ a.stats.total)
    (free : ∀ i, first ≤ i → i < first + count → a.freeBit i = true) :
    ∃ b, takeRegion start stop a = .ok () b ∧ Marked false first count a b := by
  have enough : count ≤ a.stats.free := ha.le_free inside free
  have small : a.stats.used + count < 1 <<< 64 := by
    have := ha.used
    exact Nat.lt_of_le_of_lt (by omega) ha.small
  have all : a.frames.words.allSet first count = true := (Words.allSet_iff ..).2 free
  let covered := MapLayout.superframesFor first
  let behind := (first + count) / 1024
  -- Only the superframes at the edges may still have a free frame; they are looked at one by one.
  let low := first / 1024
  let high := (first + count - 1) / 1024
  have hlow : low < MapLayout.superframesFor a.stats.total := lt_superframesFor (by omega)
  have hhigh : high < MapLayout.superframesFor a.stats.total := lt_superframesFor (by omega)
  have fits : covered < behind → covered + (behind - covered) ≤ a.superframes.capacity := by
    intro some
    rw [ha.superframeBits]
    simp only [high, behind] at *
    omega
  have few : covered < behind → covered + (behind - covered) < 1 <<< 64 := by
    intro some
    refine Nat.lt_of_le_of_lt (m := a.stats.total) ?_ ha.small
    simp only [behind] at *
    omega
  have whole : first + count ≤ a.frames.capacity := by rwa [ha.frameBits]
  let cleared : FrameAllocator := { a with frames := a.frames.clearRange first count }
  have new : MarkedBits false first count a cleared := markedBits_clearRange rfl
  have shaped : Shaped cleared :=
    { ha.toShaped with
      frameWords := by simpa [cleared, Bitmap.clearRange] using ha.frameWords }
  let marked := cleared.uncovered covered behind
  have lowReview := clearFullSuperframe_eq (shaped.uncovered covered behind) hlow
  have highReview := clearFullSuperframe_eq ((shaped.uncovered covered behind).reviewed low) hhigh
  let reviewed := (marked.reviewed low).reviewed high
  let counted := reviewed.recounted (a.stats.free - count) (a.stats.used + count)
  have counts : setStats (·.take count) reviewed = .ok () counted := setStats_take enough small
  have finish : (do clearFullSuperframe low; clearFullSuperframe high; setStats (·.take count))
      marked = .ok () counted := by
    rw [step_bind_ok lowReview, step_bind_ok highReview]
    exact counts
  refine ⟨counted, ?_, ?_⟩
  · unfold takeRegion AddressMap.superframe
    simp only [step_get_bind, region, step_lift_ok_bind, allSet_eq ha inside, all, if_true,
      Bitmap.requireRange_of_le whole (Nat.lt_of_le_of_lt inside ha.small), step_modify_bind]
    by_cases some : covered < behind
    · have state : marked = { cleared with
          superframes := a.superframes.clearRange covered (behind - covered) } := by
        simp only [marked, FrameAllocator.uncovered, if_pos some, cleared]
      rw [state] at finish
      refine (congrFun (if_pos some) cleared).trans ?_
      rw [step_get_bind, Bitmap.requireRange_of_le (fits some) (few some)]
      exact finish
    · have state : marked = cleared := by
        simp only [marked, FrameAllocator.uncovered, if_neg some]
      rw [state] at finish
      exact (congrFun (if_neg some) cleared).trans finish
  · refine ha.marked_used inside free new (((shaped.uncovered covered behind).reviewed
      low).reviewed high |>.recounted _ _) rfl rfl rfl ?_ fun k out => ?_
    · have used : ∀ i, first ≤ i → i < first + count → cleared.freeBit i = false :=
        fun i lo hi => (new i).trans (if_pos ⟨lo, hi⟩)
      have lagging := (ha.summary_of_used new).uncovered positive used
      exact ((lagging.reviewed hlow).reviewed hhigh).mono fun k _ => by
        rintro ⟨⟨edge, notLow⟩, notHigh⟩
        exact edge.elim notLow notHigh
    · have old : cleared.superframes.words.bit k = false := ha.superframePadding k out
      rw [show counted.superframes.words.bit k = reviewed.superframes.words.bit k from rfl,
        reviewed_bit, reviewed_bit, uncovered_bit, old]
      simp

theorem take_cases (ha : Consistent a) :
    ((∀ i < a.stats.total, a.freeBit i = false) ∧ take a = .ok .exhausted a) ∨
    ∃ i p b, i < a.stats.total ∧ a.freeBit i = true ∧ (∀ j < i, a.freeBit j = false) ∧
      a.stats.frameAt i = .ok p ∧ take a = .ok (.frame p) b ∧ Marked false i 1 a b := by
  cases found : a.frames.words.findFirstSet a.stats.total with
  | none =>
    have none : ∀ i < a.stats.total, a.freeBit i = false := fun i hi =>
      Words.findFrom_eq_none.1 found i (by omega) (by omega) (ha.bit_word_lt hi)
    exact Or.inl ⟨none, take_of_none_free ha none⟩
  | some i =>
    obtain ⟨-, hi, -, free, lowest⟩ := Words.findFrom_eq_some.1 found
    have hi : i < a.stats.total := by omega
    have lowest : ∀ j < i, a.freeBit j = false := fun j hj => lowest j (by omega) hj
    obtain ⟨p, b, frame, taken, marked⟩ := take_of_lowest ha hi free lowest
    exact Or.inr ⟨i, p, b, hi, free, lowest, frame, taken, marked⟩

theorem release_cases (ha : Consistent a) (p : PhysicalPage) :
    (∃ f, a.stats.frameIndex p = .error f ∧ release p a = .error f a) ∨
    ∃ i, a.stats.frameIndex p = .ok i ∧
      ((a.freeBit i = true ∧ release p a = .error (.alreadyFree p) a) ∨
        a.freeBit i = false ∧ ∃ b, release p a = .ok () b ∧ Marked true i 1 a b) := by
  cases index : a.stats.frameIndex p with
  | error f => exact Or.inl ⟨f, rfl, by simp [release, index]⟩
  | ok i =>
    refine Or.inr ⟨i, rfl, ?_⟩
    cases free : a.freeBit i with
    | true => exact Or.inl ⟨rfl, release_of_free ha index free⟩
    | false => exact Or.inr ⟨rfl, release_of_used ha index free⟩

theorem takeRegion_cases (ha : Consistent a) (start stop : PhysicalAddress) :
    (∃ f, a.stats.region start stop = .error f ∧ takeRegion start stop a = .error f a) ∨
    (a.stats.region start stop = .ok none ∧ takeRegion start stop a = .ok () a) ∨
    ∃ first count, a.stats.region start stop = .ok (some (first, count)) ∧
      ((∃ i, first ≤ i ∧ i < first + count ∧ a.freeBit i = false ∧
          takeRegion start stop a = .error (.regionNotFree start stop) a) ∨
        (∀ i, first ≤ i → i < first + count → a.freeBit i = true) ∧
          ∃ b, takeRegion start stop a = .ok () b ∧ Marked false first count a b) := by
  cases region : a.stats.region start stop with
  | error f => exact Or.inl ⟨f, rfl, by simp [takeRegion, region]⟩
  | ok found =>
    refine Or.inr ?_
    cases found with
    | none => exact Or.inl ⟨rfl, takeRegion_of_empty region⟩
    | some stretch =>
      obtain ⟨first, count⟩ := stretch
      obtain ⟨positive, inside⟩ := Stats.region_eq_some region
      refine Or.inr ⟨first, count, rfl, ?_⟩
      by_cases free : ∀ i, first ≤ i → i < first + count → a.freeBit i = true
      · exact Or.inr ⟨free, takeRegion_of_all_free ha region positive inside free⟩
      · obtain ⟨i, missed⟩ := Classical.not_forall.1 free
        obtain ⟨lo, missed⟩ := Classical.not_imp.1 missed
        obtain ⟨hi, missed⟩ := Classical.not_imp.1 missed
        have used : a.freeBit i = false := Bool.eq_false_iff.2 missed
        exact Or.inl ⟨i, lo, hi, used, takeRegion_of_used ha region inside lo hi used⟩

theorem releaseRegion_cases (ha : Consistent a) (start stop : PhysicalAddress) :
    (∃ f, a.stats.region start stop = .error f ∧ releaseRegion start stop a = .error f a) ∨
    (a.stats.region start stop = .ok none ∧ releaseRegion start stop a = .ok () a) ∨
    ∃ first count, a.stats.region start stop = .ok (some (first, count)) ∧
      ((∃ i, first ≤ i ∧ i < first + count ∧ a.freeBit i = true ∧
          releaseRegion start stop a = .error (.regionNotAllocated start stop) a) ∨
        (∀ i, first ≤ i → i < first + count → a.freeBit i = false) ∧
          ∃ b, releaseRegion start stop a = .ok () b ∧ Marked true first count a b) := by
  cases region : a.stats.region start stop with
  | error f => exact Or.inl ⟨f, rfl, by simp [releaseRegion, region]⟩
  | ok found =>
    refine Or.inr ?_
    cases found with
    | none => exact Or.inl ⟨rfl, releaseRegion_of_empty region⟩
    | some stretch =>
      obtain ⟨first, count⟩ := stretch
      obtain ⟨positive, inside⟩ := Stats.region_eq_some region
      refine Or.inr ⟨first, count, rfl, ?_⟩
      by_cases used : ∀ i, first ≤ i → i < first + count → a.freeBit i = false
      · exact Or.inr ⟨used, releaseRegion_of_all_used ha region positive inside used⟩
      · obtain ⟨i, missed⟩ := Classical.not_forall.1 used
        obtain ⟨lo, missed⟩ := Classical.not_imp.1 missed
        obtain ⟨hi, missed⟩ := Classical.not_imp.1 missed
        have free : a.freeBit i = true := by simpa using missed
        exact Or.inl ⟨i, lo, hi, free, releaseRegion_of_free ha region inside lo hi free⟩

variable {t : Taken}

theorem take_eq_ok (ha : Consistent a) (e : take a = .ok t b) :
    (t = .exhausted ∧ b = a ∧ ∀ i < a.stats.total, a.freeBit i = false) ∨
    ∃ i p, t = .frame p ∧ a.stats.frameAt i = .ok p ∧ i < a.stats.total ∧
      a.freeBit i = true ∧ Marked false i 1 a b := by
  rcases take_cases ha with ⟨none, e'⟩ | ⟨i, p, c, inside, free, -, frame, e', marked⟩
  · cases e'.symm.trans e
    exact Or.inl ⟨rfl, rfl, none⟩
  · cases e'.symm.trans e
    exact Or.inr ⟨i, p, rfl, frame, inside, free, marked⟩

theorem release_eq_ok (ha : Consistent a) (e : release p a = .ok () b) :
    ∃ i, a.stats.frameIndex p = .ok i ∧ a.freeBit i = false ∧ Marked true i 1 a b := by
  rcases release_cases ha p with ⟨f, -, e'⟩ | ⟨i, index, ⟨-, e'⟩ | ⟨used, c, e', marked⟩⟩
  · exact nomatch e'.symm.trans e
  · exact nomatch e'.symm.trans e
  · cases e'.symm.trans e
    exact ⟨i, index, used, marked⟩

theorem takeRegion_eq_ok (ha : Consistent a) (e : takeRegion start stop a = .ok () b) :
    (a.stats.region start stop = .ok none ∧ b = a) ∨
    ∃ first count, a.stats.region start stop = .ok (some (first, count)) ∧
      (∀ i, first ≤ i → i < first + count → a.freeBit i = true) ∧
        Marked false first count a b := by
  rcases takeRegion_cases ha start stop with ⟨f, -, e'⟩ | ⟨region, e'⟩ |
    ⟨first, count, region, ⟨i, -, -, -, e'⟩ | ⟨free, c, e', marked⟩⟩
  · exact nomatch e'.symm.trans e
  · cases e'.symm.trans e
    exact Or.inl ⟨region, rfl⟩
  · exact nomatch e'.symm.trans e
  · cases e'.symm.trans e
    exact Or.inr ⟨first, count, region, free, marked⟩

theorem releaseRegion_eq_ok (ha : Consistent a) (e : releaseRegion start stop a = .ok () b) :
    (a.stats.region start stop = .ok none ∧ b = a) ∨
    ∃ first count, a.stats.region start stop = .ok (some (first, count)) ∧
      (∀ i, first ≤ i → i < first + count → a.freeBit i = false) ∧
        Marked true first count a b := by
  rcases releaseRegion_cases ha start stop with ⟨f, -, e'⟩ | ⟨region, e'⟩ |
    ⟨first, count, region, ⟨i, -, -, -, e'⟩ | ⟨used, c, e', marked⟩⟩
  · exact nomatch e'.symm.trans e
  · cases e'.symm.trans e
    exact Or.inl ⟨region, rfl⟩
  · exact nomatch e'.symm.trans e
  · cases e'.symm.trans e
    exact Or.inr ⟨first, count, region, used, marked⟩

theorem usageOf_eq (shaped : Shaped a) (index : a.stats.frameIndex p = .ok i) :
    usageOf p a = .ok (a.usage.count i) a := by
  have hi := Stats.lt_total_of_frameIndex index
  have inside : i / 2 < a.usage.size := by
    rw [shaped.counters]
    omega
  simp [usageOf, index, inside]

theorem setUsage_eq (index : a.stats.frameIndex p = .ok i) (n : Nat) :
    setUsage p n a = .ok () { a with usage := a.usage.put i n } := by
  simp [setUsage, frameIndex, index, step_bind]

theorem addUser_cases (shaped : Shaped a) (p : PhysicalPage) :
    (∃ f, a.stats.frameIndex p = .error f ∧ addUser p a = .error f a) ∨
    ∃ i, a.stats.frameIndex p = .ok i ∧
      ((a.usage.count i = Counters.max ∧ addUser p a = .error (.usageOverflow p) a) ∨
        a.usage.count i ≠ Counters.max ∧
          addUser p a = .ok (a.usage.count i + 1)
            { a with usage := a.usage.put i (a.usage.count i + 1) }) := by
  cases index : a.stats.frameIndex p with
  | error f => exact Or.inl ⟨f, rfl, by simp [addUser, usageOf, index, step_bind]⟩
  | ok i =>
    refine Or.inr ⟨i, rfl, ?_⟩
    unfold addUser
    rw [step_bind_ok (usageOf_eq shaped index)]
    by_cases full : a.usage.count i = Counters.max
    · exact Or.inl ⟨full, by simp [full]⟩
    · refine Or.inr ⟨full, ?_⟩
      simp only [if_neg full]
      exact step_bind_ok (setUsage_eq index _) _

theorem removeUser_cases (shaped : Shaped a) (p : PhysicalPage) :
    (∃ f, a.stats.frameIndex p = .error f ∧ removeUser p a = .error f a) ∨
    ∃ i, a.stats.frameIndex p = .ok i ∧
      ((a.usage.count i = 0 ∧ removeUser p a = .error (.usageUnderflow p) a) ∨
        a.usage.count i ≠ 0 ∧
          removeUser p a = .ok (a.usage.count i - 1)
            { a with usage := a.usage.put i (a.usage.count i - 1) }) := by
  cases index : a.stats.frameIndex p with
  | error f => exact Or.inl ⟨f, rfl, by simp [removeUser, usageOf, index, step_bind]⟩
  | ok i =>
    refine Or.inr ⟨i, rfl, ?_⟩
    unfold removeUser
    rw [step_bind_ok (usageOf_eq shaped index)]
    by_cases none : a.usage.count i = 0
    · exact Or.inl ⟨none, by simp [none]⟩
    · refine Or.inr ⟨none, ?_⟩
      simp only [if_neg none]
      exact step_bind_ok (setUsage_eq index _) _

theorem Consistent.with_usage (ha : Consistent a) {usage : Counters}
    (size : usage.size = a.usage.size) : Consistent { a with usage } :=
  { ha with counters := size.trans ha.counters }

end Ia32Memory.FrameAllocator
