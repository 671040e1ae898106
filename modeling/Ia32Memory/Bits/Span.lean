import Ia32Memory.Bits.Word

/-! Ranges of bits cut at the borders of words.
The bits of an array of words lie in one row: bit `b` is bit `b % 32` of word `b / 32`.  A range
of bits is a list of spans, each the part that lies in one word, given as a mask.  Together they
cover the range and nothing else (`exists_span_covers`).  A writer may leave out the spans that
are whole words and fill those words instead (`whole_or_edge_covers`). -/

namespace Ia32Memory

structure Span where
  word : Nat
  mask : Word

def spans (first count : Nat) : List Span :=
  let word := first / 32
  let lead := first % 32
  let last := (first + count) / 32
  let tail := (first + count) % 32
  if count = 0 then []
  else if word = last then [⟨word, Word.ones lead (tail - lead)⟩]
  else
    let inner := if lead = 0 then word else word + 1
    (if lead = 0 then [] else [⟨word, Word.ones lead (32 - lead)⟩]) ++
      (List.range' inner (last - inner)).map (⟨·, Word.allOnes⟩) ++
      (if tail = 0 then [] else [⟨last, Word.ones 0 tail⟩])

/-- The first word wholly inside a range, and the number of such words. -/
def wholeWords (first count : Nat) : Nat × Nat :=
  let start := (first + 31) / 32
  (start, (first + count) / 32 - start)

/-- The spans that leave out some bit of their word. -/
def edges (first count : Nat) : List Span :=
  (spans first count).filter (·.mask != Word.allOnes)

def Span.Covers (s : Span) (b : Nat) : Prop :=
  s.word = b / 32 ∧ s.mask.getLsbD (b % 32) = true

theorem Span.covers_at (s : Span) {i : Nat} (h : i < 32) :
    s.Covers (32 * s.word + i) ↔ s.mask.getLsbD i = true := by
  rw [Span.Covers, show (32 * s.word + i) / 32 = s.word by omega,
    show (32 * s.word + i) % 32 = i by omega]
  simp

theorem exists_span_covers (first count b : Nat) :
    (∃ s ∈ spans first count, s.Covers b) ↔ first ≤ b ∧ b < first + count := by
  have hb : b % 32 < 32 := Nat.mod_lt _ (by decide)
  unfold spans Span.Covers
  by_cases h0 : count = 0
  · simp only [h0, if_true, List.not_mem_nil, false_and, exists_false, false_iff]
    omega
  by_cases hw : first / 32 = (first + count) / 32
  · simp only [if_neg h0, if_pos hw, List.mem_singleton, exists_eq_left, Word.getLsbD_ones,
      decide_eq_true_eq]
    omega
  have hmid : ∀ lo n : Nat, (∃ s : Span, (∃ a, (lo ≤ a ∧ a < lo + n) ∧
        (⟨a, Word.allOnes⟩ : Span) = s) ∧ s.word = b / 32 ∧ s.mask.getLsbD (b % 32) = true) ↔
      lo ≤ b / 32 ∧ b / 32 < lo + n := by
    intro lo n
    constructor
    · rintro ⟨s, ⟨a, ha, rfl⟩, rfl, -⟩
      exact ha
    · intro h
      exact ⟨⟨b / 32, Word.allOnes⟩, ⟨b / 32, h, rfl⟩, rfl, by simp [hb]⟩
  by_cases hl : first % 32 = 0 <;> by_cases ht : (first + count) % 32 = 0 <;>
    simp only [if_neg h0, if_neg hw, hl, ht, if_true, if_false, List.nil_append, List.append_nil,
      List.mem_append, List.mem_map, List.mem_range'_1, List.mem_singleton, or_and_right,
      exists_or, exists_eq_left, hmid, Word.getLsbD_ones, decide_eq_true_eq] <;> omega

theorem whole_or_edge_covers (first count b : Nat) :
    (((wholeWords first count).1 ≤ b / 32 ∧
        b / 32 < (wholeWords first count).1 + (wholeWords first count).2) ∨
      ∃ s ∈ edges first count, s.Covers b) ↔ first ≤ b ∧ b < first + count := by
  constructor
  · rintro (h | ⟨s, hs, hb⟩)
    · simp only [wholeWords] at h
      omega
    · exact (exists_span_covers first count b).1 ⟨s, (List.mem_filter.1 hs).1, hb⟩
  · intro h
    obtain ⟨s, hs, hw, hm⟩ := (exists_span_covers first count b).2 h
    by_cases hfull : s.mask = Word.allOnes
    · have inside : ∀ i < 32, first ≤ 32 * s.word + i ∧ 32 * s.word + i < first + count := by
        intro i hi
        refine (exists_span_covers first count _).1 ⟨s, hs, (s.covers_at hi).2 ?_⟩
        simp [hfull, hi]
      have hlow := inside 0 (by decide)
      have hhigh := inside 31 (by decide)
      left
      simp only [wholeWords]
      omega
    · exact Or.inr ⟨s, List.mem_filter.2 ⟨hs, by simpa using hfull⟩, hw, hm⟩

end Ia32Memory
