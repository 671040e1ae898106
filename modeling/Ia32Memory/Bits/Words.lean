import Ia32Memory.Bits.Span

/-! Arrays of words as one row of bits.
Reading beyond the last word gives zeros and writing there changes nothing.  Writing a range
fills the words that lie wholly inside it and puts masks over those at its edges; testing a range
looks at every span.  Each operation is described by the bits that it leaves, `bit_setRange` and
its neighbours, and by the unchanged number of words. -/

namespace Ia32Memory

abbrev Words := Array Word

def wordsFor (bits : Nat) : Nat := (bits + 31) / 32

namespace Words

def bit (ws : Words) (b : Nat) : Bool :=
  (ws.getD (b / 32) 0).getLsbD (b % 32)

def setBit (ws : Words) (b : Nat) : Words :=
  ws.modify (b / 32) (· ||| Word.ones (b % 32) 1)

def clearBit (ws : Words) (b : Nat) : Words :=
  ws.modify (b / 32) (· &&& ~~~ Word.ones (b % 32) 1)

def fill (ws : Words) (value : Word) (start : Nat) : Nat → Words
  | 0 => ws
  | n + 1 => fill (ws.setIfInBounds start value) value (start + 1) n

def setRange (ws : Words) (first count : Nat) : Words :=
  let whole := wholeWords first count
  (edges first count).foldl (fun ws s => ws.modify s.word (· ||| s.mask))
    (ws.fill Word.allOnes whole.1 whole.2)

def clearRange (ws : Words) (first count : Nat) : Words :=
  let whole := wholeWords first count
  (edges first count).foldl (fun ws s => ws.modify s.word (· &&& ~~~ s.mask))
    (ws.fill 0 whole.1 whole.2)

def allSet (ws : Words) (first count : Nat) : Bool :=
  (spans first count).all fun s => ws.getD s.word 0 &&& s.mask == s.mask

def allClear (ws : Words) (first count : Nat) : Bool :=
  (spans first count).all fun s => ws.getD s.word 0 &&& s.mask == 0

@[simp] theorem size_setBit (ws : Words) (b : Nat) : (ws.setBit b).size = ws.size := by
  simp [setBit]

@[simp] theorem size_clearBit (ws : Words) (b : Nat) : (ws.clearBit b).size = ws.size := by
  simp [clearBit]

@[simp] theorem size_fill (ws : Words) (value : Word) (start n : Nat) :
    (ws.fill value start n).size = ws.size := by
  induction n generalizing ws start with
  | zero => rfl
  | succ n ih => rw [fill, ih, Array.size_setIfInBounds]

theorem size_foldl_modify (f : Span → Word → Word) (parts : List Span) (ws : Words) :
    (parts.foldl (fun ws s => ws.modify s.word (f s)) ws).size = ws.size := by
  induction parts generalizing ws with
  | nil => rfl
  | cons s rest ih => rw [List.foldl_cons, ih, Array.size_modify]

@[simp] theorem size_setRange (ws : Words) (first count : Nat) :
    (ws.setRange first count).size = ws.size := by
  unfold setRange
  exact (size_foldl_modify (fun s w => w ||| s.mask) _ _).trans (size_fill ..)

@[simp] theorem size_clearRange (ws : Words) (first count : Nat) :
    (ws.clearRange first count).size = ws.size := by
  unfold clearRange
  exact (size_foldl_modify (fun s w => w &&& ~~~ s.mask) _ _).trans (size_fill ..)

theorem bit_at (ws : Words) (w : Nat) {i : Nat} (h : i < 32) :
    ws.bit (32 * w + i) = (ws.getD w 0).getLsbD i := by
  rw [bit, show (32 * w + i) / 32 = w by omega, show (32 * w + i) % 32 = i by omega]

theorem bit_of_size_le {ws : Words} {b : Nat} (h : ws.size ≤ b / 32) : ws.bit b = false := by
  simp [bit, h]

theorem bit_setBit {ws : Words} {b : Nat} (h : b / 32 < ws.size) (c : Nat) :
    (ws.setBit b).bit c = (ws.bit c || decide (c = b)) := by
  unfold bit setBit
  by_cases hw : b / 32 = c / 32
  · have hc : c / 32 < ws.size := hw ▸ h
    have hcb : c = b ↔ b % 32 ≤ c % 32 ∧ c % 32 < b % 32 + 1 := by omega
    have hlt : c % 32 < 32 := Nat.mod_lt _ (by decide)
    simp [Array.getElem_modify, hw, hc, hcb, hlt]
  · have hcb : c ≠ b := by
      rintro rfl
      exact hw rfl
    by_cases hc : c / 32 < ws.size
    · simp [Array.getElem_modify, hw, hc, hcb]
    · simp [hc, hcb]

theorem bit_clearBit (ws : Words) (b c : Nat) :
    (ws.clearBit b).bit c = (ws.bit c && decide (c ≠ b)) := by
  unfold bit clearBit
  by_cases hc : c / 32 < ws.size
  · by_cases hw : b / 32 = c / 32
    · by_cases hcb : c = b
      · subst hcb
        simp [Array.getElem_modify, hc, Word.getLsbD_ones]
      · have hout : ¬(b % 32 ≤ c % 32 ∧ c % 32 < b % 32 + 1) := by omega
        simp only [Array.getD_eq_getD_getElem?, Array.getElem?_modify, hw, if_true, hc,
          Array.getElem?_eq_getElem, Option.map_some, Option.getD_some, BitVec.getLsbD_and,
          BitVec.getLsbD_not, Word.getLsbD_ones, hout, and_false, decide_false, Bool.not_false,
          ne_eq, hcb, not_false_eq_true, decide_true, Bool.and_true]
        simp [Nat.mod_lt]
    · have hcb : c ≠ b := by
        rintro rfl
        exact hw rfl
      simp [Array.getElem_modify, hw, hc, hcb]
  · simp [hc]

theorem bit_fill (ws : Words) (value : Word) (start n b : Nat) :
    (ws.fill value start n).bit b =
      if start ≤ b / 32 ∧ b / 32 < start + n ∧ b / 32 < ws.size then value.getLsbD (b % 32)
      else ws.bit b := by
  induction n generalizing ws start with
  | zero =>
    rw [if_neg (by omega)]
    rfl
  | succ n ih =>
    rw [fill, ih, Array.size_setIfInBounds]
    by_cases hlater : start + 1 ≤ b / 32 ∧ b / 32 < start + 1 + n ∧ b / 32 < ws.size
    · rw [if_pos hlater, if_pos (by omega)]
    · rw [if_neg hlater]
      by_cases hhere : start = b / 32 ∧ b / 32 < ws.size
      · rw [if_pos (by omega), bit]
        simp [hhere.1, hhere.2]
      · rw [if_neg (by omega)]
        unfold bit
        by_cases hw : start = b / 32
        · have hout : ¬ b / 32 < ws.size := fun h => hhere ⟨hw, h⟩
          simp [hout]
        · simp [hw]

theorem bit_foldl_or (parts : List Span) (ws : Words) {b : Nat} (h : b / 32 < ws.size) :
    (parts.foldl (fun ws s => ws.modify s.word (· ||| s.mask)) ws).bit b = true ↔
      ws.bit b = true ∨ ∃ s ∈ parts, s.Covers b := by
  induction parts generalizing ws with
  | nil => simp
  | cons s rest ih =>
    rw [List.foldl_cons, ih _ (by rwa [Array.size_modify])]
    have hstep : bit (ws.modify s.word (· ||| s.mask)) b = true ↔
        ws.bit b = true ∨ s.Covers b := by
      unfold bit Span.Covers
      by_cases hw : s.word = b / 32 <;> simp [Array.getElem_modify, hw, h]
    simp [hstep, or_assoc]

theorem bit_foldl_and_not (parts : List Span) (ws : Words) {b : Nat} (h : b / 32 < ws.size) :
    (parts.foldl (fun ws s => ws.modify s.word (· &&& ~~~ s.mask)) ws).bit b = true ↔
      ws.bit b = true ∧ ¬∃ s ∈ parts, s.Covers b := by
  induction parts generalizing ws with
  | nil => simp
  | cons s rest ih =>
    rw [List.foldl_cons, ih _ (by rwa [Array.size_modify])]
    have hstep : bit (ws.modify s.word (· &&& ~~~ s.mask)) b = true ↔
        ws.bit b = true ∧ ¬s.Covers b := by
      unfold bit Span.Covers
      have hb : b % 32 < 32 := Nat.mod_lt _ (by decide)
      by_cases hw : s.word = b / 32 <;> simp [Array.getElem_modify, hw, h, hb]
    simp [hstep, and_assoc]

theorem bit_setRange {ws : Words} {b : Nat} (h : b / 32 < ws.size) (first count : Nat) :
    (ws.setRange first count).bit b = true ↔
      ws.bit b = true ∨ first ≤ b ∧ b < first + count := by
  unfold setRange
  rw [bit_foldl_or _ _ (by rwa [size_fill]), bit_fill, ← whole_or_edge_covers first count b]
  have hb : b % 32 < 32 := Nat.mod_lt _ (by decide)
  split
  · simp_all
  · rename_i hout
    have hout : ¬((wholeWords first count).1 ≤ b / 32 ∧
        b / 32 < (wholeWords first count).1 + (wholeWords first count).2) :=
      fun hin => hout ⟨hin.1, hin.2, h⟩
    simp [hout]

theorem bit_clearRange {ws : Words} {b : Nat} (h : b / 32 < ws.size) (first count : Nat) :
    (ws.clearRange first count).bit b = true ↔
      ws.bit b = true ∧ ¬(first ≤ b ∧ b < first + count) := by
  unfold clearRange
  rw [bit_foldl_and_not _ _ (by rwa [size_fill]), bit_fill, ← whole_or_edge_covers first count b]
  split
  · simp_all
  · rename_i hout
    have hout : ¬((wholeWords first count).1 ≤ b / 32 ∧
        b / 32 < (wholeWords first count).1 + (wholeWords first count).2) :=
      fun hin => hout ⟨hin.1, hin.2, h⟩
    simp only [hout, false_or]

theorem allSet_iff (ws : Words) (first count : Nat) :
    ws.allSet first count = true ↔ ∀ b, first ≤ b → b < first + count → ws.bit b = true := by
  have hspan : ∀ s : Span, (ws.getD s.word 0 &&& s.mask == s.mask) = true ↔
      ∀ b, s.Covers b → ws.bit b = true := by
    intro s
    rw [beq_iff_eq]
    constructor
    · rintro heq b ⟨hw, hm⟩
      rw [← heq, BitVec.getLsbD_and, Bool.and_eq_true, hw] at hm
      exact hm.1
    · intro hall
      apply BitVec.eq_of_getLsbD_eq
      intro i hi
      rw [BitVec.getLsbD_and, ← bit_at _ _ hi]
      cases hm : s.mask.getLsbD i with
      | false => simp
      | true => simp [hall _ ((s.covers_at hi).2 hm)]
  unfold allSet
  rw [List.all_eq_true]
  constructor
  · intro h b hlo hhi
    obtain ⟨s, hs, hb⟩ := (exists_span_covers first count b).2 ⟨hlo, hhi⟩
    exact (hspan s).1 (h s hs) b hb
  · intro h s hs
    refine (hspan s).2 fun b hb => ?_
    obtain ⟨hlo, hhi⟩ := (exists_span_covers first count b).1 ⟨s, hs, hb⟩
    exact h b hlo hhi

theorem allClear_iff (ws : Words) (first count : Nat) :
    ws.allClear first count = true ↔ ∀ b, first ≤ b → b < first + count → ws.bit b = false := by
  have hspan : ∀ s : Span, (ws.getD s.word 0 &&& s.mask == 0) = true ↔
      ∀ b, s.Covers b → ws.bit b = false := by
    intro s
    rw [beq_iff_eq]
    constructor
    · rintro heq b ⟨hw, hm⟩
      have hzero := congrArg (·.getLsbD (b % 32)) heq
      simpa [BitVec.getLsbD_and, hm, hw, bit] using hzero
    · intro hall
      apply BitVec.eq_of_getLsbD_eq
      intro i hi
      rw [BitVec.getLsbD_and, ← bit_at _ _ hi]
      cases hm : s.mask.getLsbD i with
      | false => simp
      | true => simp [hall _ ((s.covers_at hi).2 hm)]
  unfold allClear
  rw [List.all_eq_true]
  constructor
  · intro h b hlo hhi
    obtain ⟨s, hs, hb⟩ := (exists_span_covers first count b).2 ⟨hlo, hhi⟩
    exact (hspan s).1 (h s hs) b hb
  · intro h s hs
    refine (hspan s).2 fun b hb => ?_
    obtain ⟨hlo, hhi⟩ := (exists_span_covers first count b).1 ⟨s, hs, hb⟩
    exact h b hlo hhi

end Words
end Ia32Memory
