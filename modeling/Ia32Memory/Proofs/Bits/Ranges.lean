import Ia32Memory.Bits.Checked
import Ia32Memory.Proofs.Step

/-! Ranges of bits, written and tested word by word.
A visitor meets the spans of a range in order, and none of the masks it is handed is too long
(`visitSpans_eq`).  The words it looks up are there just if the range fits the words: every span
has a bit of the range, and the last bit lies in the last span.  So an operation that checks each
word as it comes is one check in front and the operation without checks behind it. -/

namespace Ia32Memory

theorem maskChecked_of_le {lead count : Nat} (h : lead + count ≤ 32) :
    maskChecked lead count = .ok (Word.ones lead count) := if_pos h

section Visits
variable {α : Type} (visit : α → Span → Except Fault α)

theorem visitWhole_eq (acc : α) (word n : Nat) :
    visitWhole visit acc word n =
      ((List.range' word n).map (⟨·, Word.allOnes⟩)).foldlM visit acc := by
  induction n generalizing acc word with
  | zero => rfl
  | succ n ih => simp only [visitWhole, ih, List.range'_succ, List.map_cons, List.foldlM_cons]

/-- The masks on the way are those of `spans`, and none of them is refused. -/
theorem visitSpans_eq (acc : α) (first count : Nat) :
    visitSpans visit acc first count =
      if count = 0 then .ok acc
      else fit 64 (first + count) >>= fun _ => (spans first count).foldlM visit acc := by
  unfold visitSpans
  by_cases empty : count = 0
  · rw [if_pos empty, if_pos empty]
  rw [if_neg empty, if_neg empty]
  rcases Decidable.em (first + count < 1 <<< 64) with few | many
  case inr =>
    rw [fit, if_neg many]
    rfl
  rw [fit_of_lt few, except_ok_bind, except_ok_bind, spans, if_neg empty]
  have lead : first % 32 < 32 := Nat.mod_lt _ (by decide)
  have tail : (first + count) % 32 < 32 := Nat.mod_lt _ (by decide)
  by_cases one : first / 32 = (first + count) / 32
  · have rising : first % 32 ≤ (first + count) % 32 := by omega
    simp only [if_pos one, minus_of_le rising, except_ok_bind, List.foldlM_cons, List.foldlM_nil,
      maskChecked_of_le (show first % 32 + ((first + count) % 32 - first % 32) ≤ 32 by omega),
      bind_pure]
  simp only [if_neg one, minus_of_le (Nat.le_of_lt lead), except_ok_bind, visitWhole_eq,
    maskChecked_of_le (show first % 32 + (32 - first % 32) ≤ 32 by omega),
    maskChecked_of_le (show 0 + (first + count) % 32 ≤ 32 by omega), List.foldlM_append]
  by_cases aligned : first % 32 = 0 <;> by_cases ended : (first + count) % 32 = 0 <;>
    simp [aligned, ended, except_pure, except_bind_ok]

end Visits

theorem Span.exists_covers_of_mem {s : Span} {first count : Nat} (h : s ∈ spans first count) :
    ∃ b, s.Covers b := by
  have lead : first % 32 < 32 := Nat.mod_lt _ (by decide)
  have shown : ∃ i < 32, s.mask.getLsbD i = true := by
    unfold spans at h
    by_cases empty : count = 0
    · simp [empty] at h
    by_cases one : first / 32 = (first + count) / 32
    · simp only [if_neg empty, if_pos one, List.mem_singleton] at h
      exact ⟨first % 32, lead, by rw [h, Word.getLsbD_ones]; simp; omega⟩
    · simp only [if_neg empty, if_neg one, List.mem_append, List.mem_map] at h
      rcases h with (h | ⟨_, -, rfl⟩) | h
      · split at h
        · cases h
        · rw [List.mem_singleton] at h
          exact ⟨first % 32, lead, by rw [h, Word.getLsbD_ones]; simp; omega⟩
      · exact ⟨0, by decide, by simp⟩
      · split at h
        · cases h
        · rw [List.mem_singleton] at h
          exact ⟨0, by decide, by rw [h, Word.getLsbD_ones]; simp; omega⟩
  obtain ⟨i, inside, shown⟩ := shown
  exact ⟨32 * s.word + i, (s.covers_at inside).2 shown⟩

theorem spans_words_lt_iff {first count : Nat} (some : count ≠ 0) (n : Nat) :
    (∀ s ∈ spans first count, s.word < n) ↔ first + count ≤ 32 * n := by
  constructor
  · intro within
    obtain ⟨s, mem, word, -⟩ := (exists_span_covers first count (first + count - 1)).2 (by omega)
    have := within s mem
    omega
  · intro within s mem
    obtain ⟨b, covers⟩ := Span.exists_covers_of_mem mem
    have := (exists_span_covers first count b).1 ⟨s, mem, covers⟩
    have := covers.1
    omega

theorem wholeWords_edges_lt_iff (first : Nat) {count : Nat} (some : count ≠ 0) (n : Nat) :
    ((wholeWords first count).1 + (wholeWords first count).2 ≤ n ∧
      ∀ s ∈ edges first count, s.word < n) ↔ first + count ≤ 32 * n := by
  constructor
  · rintro ⟨whole, within⟩
    rcases (whole_or_edge_covers first count (first + count - 1)).2 (by omega) with
      ⟨-, behind⟩ | ⟨s, mem, word, -⟩
    · omega
    · have := within s mem
      omega
  · intro within
    refine ⟨?_, fun s mem =>
      (spans_words_lt_iff some n).2 within s (List.mem_filter.1 mem).1⟩
    simp only [wholeWords]
    omega

namespace Words

def requireRange (ws : Words) (first count : Nat) : Except Fault Unit :=
  if count = 0 then .ok ()
  else do
    let stop ← fit 64 (first + count)
    if stop ≤ 32 * ws.size then .ok () else .error .outOfBounds

variable {ws : Words} {i : Nat}

theorem modifyChecked_of_lt (h : i < ws.size) (change : Word → Word) :
    ws.modifyChecked i change = .ok (ws.modify i change) := if_pos h

theorem modifyChecked_of_not_lt (h : ¬i < ws.size) (change : Word → Word) :
    ws.modifyChecked i change = .error .outOfBounds := if_neg h

theorem wordChecked_of_lt (h : i < ws.size) : ws.wordChecked i = .ok (ws.getD i 0) := if_pos h

theorem wordChecked_of_not_lt (h : ¬i < ws.size) : ws.wordChecked i = .error .outOfBounds :=
  if_neg h

theorem foldlM_modifyChecked (change : Word → Word → Word) (parts : List Span) (ws : Words) :
    parts.foldlM (fun ws s => if s.mask = Word.allOnes then Except.ok ws
        else ws.modifyChecked s.word (change s.mask)) ws =
      if ∀ s ∈ parts.filter (fun s : Span => s.mask != Word.allOnes), s.word < ws.size then
        .ok ((parts.filter (·.mask != Word.allOnes)).foldl
          (fun ws s => ws.modify s.word (change s.mask)) ws)
      else .error .outOfBounds := by
  induction parts generalizing ws with
  | nil => simp [except_pure]
  | cons s rest ih =>
    rw [List.foldlM_cons]
    by_cases whole : s.mask = Word.allOnes
    · rw [if_pos whole, except_ok_bind, ih, List.filter_cons_of_neg (by simpa using whole)]
    rw [if_neg whole, List.filter_cons_of_pos (by simpa using whole)]
    by_cases here : s.word < ws.size
    · rw [modifyChecked_of_lt here, except_ok_bind, ih]
      simp [here]
    · rw [modifyChecked_of_not_lt here]
      simp [here]

theorem foldlM_wordChecked (holds : Word → Word → Bool) (parts : List Span) (ws : Words)
    (ok : Bool) :
    parts.foldlM (fun ok s => do return ok && holds s.mask (← ws.wordChecked s.word)) ok =
      if ∀ s ∈ parts, s.word < ws.size then
        .ok (ok && parts.all fun s => holds s.mask (ws.getD s.word 0))
      else .error .outOfBounds := by
  induction parts generalizing ok with
  | nil => simp [except_pure]
  | cons s rest ih =>
    rw [List.foldlM_cons]
    by_cases here : s.word < ws.size
    · rw [wordChecked_of_lt here, except_ok_bind, except_pure, except_ok_bind, ih]
      simp [here, Bool.and_assoc]
    · rw [wordChecked_of_not_lt here]
      simp [here]

theorem writeRange_eq (value : Word) (change : Word → Word → Word) (ws : Words)
    (first count : Nat) :
    ws.writeRange value change first count = (do
      ws.requireRange first count
      return (edges first count).foldl (fun ws s => ws.modify s.word (change s.mask))
        (ws.fill value (wholeWords first count).1 (wholeWords first count).2)) := by
  unfold writeRange requireRange
  by_cases empty : count = 0
  · subst empty
    have whole : (wholeWords first 0).2 = 0 := by
      simp only [wholeWords]
      omega
    simp [edges, spans, whole, fill]
  rw [if_neg empty, if_neg empty]
  rcases Decidable.em (first + count < 1 <<< 64) with few | many
  case inr =>
    rw [fit, if_neg many]
    rfl
  have fits := wholeWords_edges_lt_iff first empty ws.size
  simp only [fit_of_lt few, except_ok_bind, visitSpans_eq, if_neg empty, fillChecked,
    foldlM_modifyChecked]
  by_cases inside : first + count ≤ 32 * ws.size
  · obtain ⟨whole, within⟩ := fits.2 inside
    rw [if_pos whole, if_pos inside, except_ok_bind, size_fill, ← edges, if_pos within]
    rfl
  · rw [if_neg inside]
    by_cases whole : (wholeWords first count).1 + (wholeWords first count).2 ≤ ws.size
    · rw [if_pos whole, except_ok_bind, size_fill, ← edges,
        if_neg fun within => inside (fits.1 ⟨whole, within⟩)]
      rfl
    · rw [if_neg whole]
      rfl

theorem testRange_eq (holds : Word → Word → Bool) (ws : Words) (first count : Nat) :
    ws.testRange holds first count = (do
      ws.requireRange first count
      return (spans first count).all fun s => holds s.mask (ws.getD s.word 0)) := by
  unfold testRange requireRange
  rw [visitSpans_eq]
  by_cases empty : count = 0
  · simp [empty, spans]
  rw [if_neg empty, if_neg empty]
  rcases Decidable.em (first + count < 1 <<< 64) with few | many
  case inr =>
    rw [fit, if_neg many]
    rfl
  simp only [fit_of_lt few, except_ok_bind, foldlM_wordChecked,
    spans_words_lt_iff empty ws.size]
  split <;> rfl

theorem setRangeChecked_eq (ws : Words) (first count : Nat) :
    ws.setRangeChecked first count =
      ws.requireRange first count >>= fun _ => .ok (ws.setRange first count) :=
  writeRange_eq ..

theorem clearRangeChecked_eq (ws : Words) (first count : Nat) :
    ws.clearRangeChecked first count =
      ws.requireRange first count >>= fun _ => .ok (ws.clearRange first count) :=
  writeRange_eq ..

theorem allSetChecked_eq (ws : Words) (first count : Nat) :
    ws.allSetChecked first count =
      ws.requireRange first count >>= fun _ => .ok (ws.allSet first count) :=
  testRange_eq ..

theorem allClearChecked_eq (ws : Words) (first count : Nat) :
    ws.allClearChecked first count =
      ws.requireRange first count >>= fun _ => .ok (ws.allClear first count) :=
  testRange_eq ..

theorem requireRange_of_le {ws : Words} {first count : Nat}
    (inside : first + count ≤ 32 * ws.size) (small : first + count < 1 <<< 64) :
    ws.requireRange first count = .ok () := by
  unfold Words.requireRange
  by_cases empty : count = 0
  · rw [if_pos empty]
  · rw [if_neg empty, fit, if_pos small]
    exact if_pos inside

theorem bit_clearRange_eq (ws : Words) (first count b : Nat) :
    (ws.clearRange first count).bit b =
      if first ≤ b ∧ b < first + count then false else ws.bit b := by
  rw [Bool.eq_iff_iff]
  by_cases word : b / 32 < ws.size
  · rw [Words.bit_clearRange word]
    by_cases here : first ≤ b ∧ b < first + count
    · simp [here]
    · simp only [if_neg here]
      exact and_iff_left here
  · have out : ws.size ≤ b / 32 := Nat.le_of_not_lt word
    rw [Words.bit_of_size_le (by simpa using out), Words.bit_of_size_le out, ite_self]

theorem bit_setRange_eq {ws : Words} {first count : Nat}
    (inside : first + count ≤ 32 * ws.size) (b : Nat) :
    (ws.setRange first count).bit b =
      if first ≤ b ∧ b < first + count then true else ws.bit b := by
  rw [Bool.eq_iff_iff]
  by_cases word : b / 32 < ws.size
  · rw [Words.bit_setRange word]
    by_cases here : first ≤ b ∧ b < first + count
    · simp [here]
    · simp only [if_neg here]
      exact or_iff_left here
  · have out : ws.size ≤ b / 32 := Nat.le_of_not_lt word
    rw [Words.bit_of_size_le (by simpa using out), Words.bit_of_size_le out, if_neg (by omega)]

/-- The words after `value` was written to every bit of a range. -/
structure Wrote (ws : Words) (value : Bool) (first count : Nat) (us : Words) : Prop where
  size : us.size = ws.size
  bit : ∀ b, us.bit b = if first ≤ b ∧ b < first + count then value else ws.bit b

def Uniform (ws : Words) (value : Bool) (first count : Nat) : Prop :=
  ∀ b, first ≤ b → b < first + count → ws.bit b = value

/-- A range within the words is written and tested bit by bit, and no check stands in the way.
An empty one may lie anywhere. -/
theorem ranged_as_bits (ws : Words) (first : Nat) :
    (∀ count, first + count ≤ 32 * ws.size → first + count < 1 <<< 64 →
      (∃ us, ws.setRangeChecked first count = .ok us ∧ ws.Wrote true first count us) ∧
      (∃ us, ws.clearRangeChecked first count = .ok us ∧ ws.Wrote false first count us) ∧
      (∃ answer, ws.allSetChecked first count = .ok answer ∧
        (answer = true ↔ ws.Uniform true first count)) ∧
      (∃ answer, ws.allClearChecked first count = .ok answer ∧
        (answer = true ↔ ws.Uniform false first count))) ∧
    ws.setRangeChecked first 0 = .ok ws ∧ ws.clearRangeChecked first 0 = .ok ws ∧
    ws.allSetChecked first 0 = .ok true ∧ ws.allClearChecked first 0 = .ok true := by
  refine ⟨fun count inside small => ?_, rfl, rfl, rfl, rfl⟩
  have fits := requireRange_of_le inside small
  rw [setRangeChecked_eq, clearRangeChecked_eq, allSetChecked_eq, allClearChecked_eq, fits]
  exact ⟨⟨_, rfl, size_setRange .., bit_setRange_eq inside⟩,
    ⟨_, rfl, size_clearRange .., bit_clearRange_eq ws first count⟩,
    ⟨_, rfl, allSet_iff ws first count⟩, ⟨_, rfl, allClear_iff ws first count⟩⟩

theorem ranged_as_bits_across :
    (30 + 36 ≤ 32 * (#[0, 0, 5] : Words).size ∧ 30 + 36 < 1 <<< 64) ∧
      (∃ us, setRangeChecked #[0, 0, 5] 30 36 = .ok us ∧ Wrote #[0, 0, 5] true 30 36 us) ∧
      ∃ answer, allClearChecked #[0, 0, 5] 30 36 = .ok answer ∧
        (answer = true ↔ Uniform #[0, 0, 5] false 30 36) := by
  have shown := (ranged_as_bits #[0, 0, 5] 30).1 36 (by decide) (by decide)
  exact ⟨by decide, shown.1, shown.2.2.2⟩

example : setRangeChecked #[0, 0, 5] 30 36 = .ok #[0xC0000000, 0xFFFFFFFF, 7] := by
  rfl

end Words
end Ia32Memory
