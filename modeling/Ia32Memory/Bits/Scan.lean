import Ia32Memory.Bits.Words

/-! The lowest hit in a row of bits.
A scan looks at the words through a view, the identity for ones and the complement for zeros, and
stops at the first word that shows a one.  A window may end inside a word; hits beyond its end
are dropped afterwards, which loses nothing, since a hit inside the window would have been lower
(`findFrom_eq_some`, `findFrom_eq_none`). -/

namespace Ia32Memory.Words

def seen (view : Word → Word) (ws : Words) (b : Nat) : Bool :=
  (view (ws.getD (b / 32) 0)).getLsbD (b % 32)

def scan (view : Word → Word) (ws : Words) (i stop : Nat) : Option Nat :=
  if h : i < stop ∧ i < ws.size then
    match (view ws[i]).lowest? with
    | some b => some (32 * i + b)
    | none => scan view ws (i + 1) stop
  else none
termination_by stop - i

/-- The lowest one among the `count` bits from the start of word `word` on. -/
def findFrom (view : Word → Word) (ws : Words) (word count : Nat) : Option Nat :=
  (ws.scan view word (word + wordsFor count)).filter (· < 32 * word + count)

def findFirstSet (ws : Words) (capacity : Nat) : Option Nat :=
  ws.findFrom id 0 capacity

def findFirstClear (ws : Words) (capacity : Nat) : Option Nat :=
  ws.findFrom (~~~ ·) 0 capacity

theorem seen_id (ws : Words) (b : Nat) : ws.seen id b = ws.bit b := rfl

theorem seen_not (ws : Words) (b : Nat) : ws.seen (~~~ ·) b = !ws.bit b := by
  simp [seen, bit, Nat.mod_lt]

theorem scan_some {view : Word → Word} {ws : Words} {i stop b : Nat}
    (h : ws.scan view i stop = some b) :
    32 * i ≤ b ∧ b / 32 < stop ∧ b / 32 < ws.size ∧ ws.seen view b = true ∧
      ∀ c, 32 * i ≤ c → c < b → ws.seen view c = false := by
  fun_induction scan view ws i stop with
  | case1 i hin p hp =>
    obtain ⟨hone, hlow⟩ := Word.lowest?_eq_some.1 hp
    have hlt : p < 32 := BitVec.lt_of_getLsbD hone
    have at_i : ∀ q < 32, ws.seen view (32 * i + q) = (view ws[i]).getLsbD q := by
      intro q hq
      rw [seen, show (32 * i + q) / 32 = i by omega, show (32 * i + q) % 32 = q by omega]
      simp [hin.2]
    obtain rfl : 32 * i + p = b := Option.some.inj h
    refine ⟨by omega, by omega, by omega, by rw [at_i p hlt, hone], fun c hlo hhi => ?_⟩
    rw [show c = 32 * i + (c - 32 * i) by omega, at_i _ (by omega)]
    exact hlow _ (by omega)
  | case2 i hin hp ih =>
    obtain ⟨hlo, hstop, hsize, hone, hlow⟩ := ih h
    refine ⟨by omega, hstop, hsize, hone, fun c hc hb => ?_⟩
    by_cases hnext : 32 * (i + 1) ≤ c
    · exact hlow c hnext hb
    · rw [seen, show c / 32 = i by omega]
      simp [hin.2, Word.lowest?_eq_none.1 hp]
  | case3 => simp at h

theorem scan_none {view : Word → Word} {ws : Words} {i stop : Nat}
    (h : ws.scan view i stop = none) (c : Nat) (hlo : 32 * i ≤ c) (hstop : c / 32 < stop)
    (hsize : c / 32 < ws.size) : ws.seen view c = false := by
  fun_induction scan view ws i stop with
  | case1 => simp at h
  | case2 i hin hp ih =>
    by_cases hnext : 32 * (i + 1) ≤ c
    · exact ih h hnext
    · rw [seen, show c / 32 = i by omega]
      simp [hin.2, Word.lowest?_eq_none.1 hp]
  | case3 i hout => omega

theorem findFrom_eq_none {view : Word → Word} {ws : Words} {word count : Nat} :
    ws.findFrom view word count = none ↔
      ∀ c, 32 * word ≤ c → c < 32 * word + count → c / 32 < ws.size →
        ws.seen view c = false := by
  unfold findFrom
  constructor
  · intro h c hlo hhi hsize
    cases hs : ws.scan view word (word + wordsFor count) with
    | none => exact scan_none hs c hlo (by unfold wordsFor; omega) hsize
    | some b =>
      rw [hs, Option.filter_some] at h
      have hb : ¬b < 32 * word + count := by
        intro hlt
        simp [hlt] at h
      exact (scan_some hs).2.2.2.2 c hlo (by omega)
  · intro h
    cases hs : ws.scan view word (word + wordsFor count) with
    | none => rfl
    | some b =>
      obtain ⟨hlo, -, hsize, hone, -⟩ := scan_some hs
      have hb : ¬b < 32 * word + count := by
        intro hlt
        rw [h b hlo hlt hsize] at hone
        exact Bool.false_ne_true hone
      simp [Option.filter_some, hb]

theorem findFrom_eq_some {view : Word → Word} {ws : Words} {word count b : Nat} :
    ws.findFrom view word count = some b ↔
      32 * word ≤ b ∧ b < 32 * word + count ∧ b / 32 < ws.size ∧ ws.seen view b = true ∧
        ∀ c, 32 * word ≤ c → c < b → ws.seen view c = false := by
  constructor
  · intro h
    obtain ⟨hs, hlt⟩ := Option.filter_eq_some_iff.1 h
    obtain ⟨hlo, -, hsize, hone, hlow⟩ := scan_some hs
    exact ⟨hlo, by simpa using hlt, hsize, hone, hlow⟩
  · rintro ⟨hlo, hhi, hsize, hone, hlow⟩
    cases hf : ws.findFrom view word count with
    | none =>
      rw [findFrom_eq_none.1 hf b hlo hhi hsize] at hone
      exact absurd hone Bool.false_ne_true
    | some d =>
      obtain ⟨hs, -⟩ := Option.filter_eq_some_iff.1 hf
      obtain ⟨hdlo, -, -, hdone, hdlow⟩ := scan_some hs
      rcases Nat.lt_trichotomy b d with h | h | h
      · rw [hdlow b hlo h] at hone
        exact absurd hone Bool.false_ne_true
      · rw [h]
      · rw [hlow d hdlo h] at hdone
        exact absurd hdone Bool.false_ne_true

end Ia32Memory.Words
