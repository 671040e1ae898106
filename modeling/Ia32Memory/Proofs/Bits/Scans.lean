import Mathlib.Order.Bounds.Basic
import Ia32Memory.Bits.Bitmap
import Ia32Memory.Proofs.Step

/-! The lowest hit in a row of bits, in 64-bit numbers.
The place of a hit never leaves them: a scan ends with the last word of its capacity, which is a
number of 64 bits itself (`findFirstChecked_eq`).  A window of a bit set is scanned as a row of its
own and the hit moved back to where the window starts (`findFirstSetIn_eq`).  What is told is the
least place of a set, whatever the words hold at the capacity and beyond. -/

namespace Ia32Memory

namespace Words
variable {view : Word → Word} {ws : Words} {word count : Nat}

theorem scanChecked_eq {i stop : Nat} (small : stop * 32 ≤ 1 <<< 64) :
    ws.scanChecked view i stop = .ok (ws.scan view i stop) := by
  fun_induction scan view ws i stop with
  | case1 i inside b hit =>
    have low : b < 32 := BitVec.lt_of_getLsbD (Word.lowest?_eq_some.1 hit).1
    have last : i * 32 + b < 1 <<< 64 := by omega
    rw [scanChecked, dif_pos inside, hit]
    simp only [fit_of_lt (show i * 32 < 1 <<< 64 by omega), fit_of_lt last, except_ok_bind,
      except_pure, Nat.mul_comm]
  | case2 i inside miss ih =>
    rw [scanChecked, dif_pos inside, miss]
    exact ih
  | case3 i outside => rw [scanChecked, dif_neg outside]

theorem findFirstChecked_eq (small : count < 1 <<< 64) :
    ws.findFirstChecked view count = .ok (ws.findFrom view 0 count) := by
  have words : wordsFor count * 32 ≤ 1 <<< 64 := by
    unfold wordsFor
    omega
  rw [findFirstChecked, scanChecked_eq words, except_ok_bind, findFrom, Nat.mul_zero, Nat.zero_add,
    Nat.zero_add]
  rfl

theorem seen_extract (b : Nat) :
    seen view (ws.extract word) b = ws.seen view (32 * word + b) := by
  unfold seen
  rw [show (32 * word + b) / 32 = word + b / 32 by omega,
    show (32 * word + b) % 32 = b % 32 by omega]
  by_cases inside : word + b / 32 < ws.size
  · simp [show b / 32 < ws.size - word by omega, inside]
  · simp [show ¬b / 32 < ws.size - word by omega, inside]

theorem findFrom_extract (view : Word → Word) (ws : Words) (word count : Nat) :
    (findFrom view (ws.extract word) 0 count).map (32 * word + ·) =
      ws.findFrom view word count := by
  symm
  cases found : findFrom view (ws.extract word) 0 count with
  | none =>
    rw [findFrom_eq_none] at found
    refine findFrom_eq_none.2 fun c low high inside => ?_
    have clear := found (c - 32 * word) (by omega) (by omega) (by simp; omega)
    rwa [seen_extract, Nat.add_sub_cancel' low] at clear
  | some b =>
    obtain ⟨-, high, inside, one, lowest⟩ := findFrom_eq_some.1 found
    rw [Array.size_extract] at inside
    refine (findFrom_eq_some (b := 32 * word + b)).2
      ⟨Nat.le_add_right .., by omega, by omega, ?_, fun c low before => ?_⟩
    · rwa [seen_extract] at one
    · have clear := lowest (c - 32 * word) (by omega) (by omega)
      rwa [seen_extract, Nat.add_sub_cancel' low] at clear

end Words

/-- A window is scanned where it lies, and the place of its hit is below the capacity. -/
theorem Bitmap.findFirstSetIn_eq {m : Bitmap} (small : m.capacity < 1 <<< 64)
    {start : Nat} (aligned : start % 32 = 0) (count : Nat) :
    m.findFirstSetIn start count =
      .ok (m.words.findFrom id (start / 32) (min count (m.capacity - start))) := by
  have few : min count (m.capacity - start) < 1 <<< 64 := by omega
  have back : 32 * (start / 32) = start := by omega
  rw [findFirstSetIn, if_pos aligned]
  by_cases inside : start / 32 ≤ m.words.size
  · rw [if_pos inside, Words.findFirstSetChecked, Words.findFirstChecked_eq few, except_ok_bind,
      ← Words.findFrom_extract id m.words, back]
    cases found : Words.findFrom id (m.words.extract (start / 32)) 0
        (min count (m.capacity - start)) with
    | none => rfl
    | some b =>
      have below := (Words.findFrom_eq_some.1 found).2.1
      simp only [fit_of_lt (show start + b < 1 <<< 64 by omega), except_ok_bind, except_pure,
        Option.map_some]
  · have none : m.words.findFrom id (start / 32) (min count (m.capacity - start)) = none :=
      Words.findFrom_eq_none.2 fun c low _ within => by omega
    rw [if_neg inside, none]

namespace Words

def hits (ws : Words) (value : Bool) (start stop : Nat) : Set Nat :=
  {b | start ≤ b ∧ b < stop ∧ ws.bit b = value}

/-- What is found is the least of the places, and nothing is found where there are none. -/
structure FindsLeast (found : Option Nat) (places : Set Nat) : Prop where
  some_iff : ∀ b, found = some b ↔ IsLeast places b
  none_iff : found = none ↔ places = ∅

theorem hits_congr {ws : Words} {value : Bool} {start stop stop' : Nat}
    (same : ∀ b, start ≤ b → (b < stop ↔ b < stop')) :
    ws.hits value start stop = ws.hits value start stop' := by
  ext b
  exact and_congr_right fun low => and_congr_left' (same b low)

theorem findFrom_findsLeast {view : Word → Word} {value : Bool} (ws : Words)
    (shows : ∀ b, ws.seen view b = true ↔ ws.bit b = value) (word count : Nat) :
    FindsLeast (ws.findFrom view word count)
      (ws.hits value (32 * word) (min (32 * word + count) (32 * ws.size))) := by
  have hit : ∀ b, b ∈ ws.hits value (32 * word) (min (32 * word + count) (32 * ws.size)) ↔
      32 * word ≤ b ∧ b < 32 * word + count ∧ b / 32 < ws.size ∧ ws.seen view b = true := by
    intro b
    rw [shows]
    exact ⟨fun ⟨low, high, here⟩ => ⟨low, by omega, by omega, here⟩,
      fun ⟨low, high, inside, here⟩ => ⟨low, by omega, here⟩⟩
  constructor
  · intro b
    rw [findFrom_eq_some]
    constructor
    · rintro ⟨low, high, inside, one, lowest⟩
      refine ⟨(hit b).2 ⟨low, high, inside, one⟩, fun c place => ?_⟩
      obtain ⟨behind, -, -, seen⟩ := (hit c).1 place
      refine Nat.le_of_not_lt fun before => ?_
      rw [lowest c behind before] at seen
      exact Bool.false_ne_true seen
    · rintro ⟨place, least⟩
      obtain ⟨low, high, inside, one⟩ := (hit b).1 place
      refine ⟨low, high, inside, one, fun c behind before => Bool.eq_false_iff.2 fun seen => ?_⟩
      exact Nat.not_le_of_lt before (least ((hit c).2 ⟨behind, by omega, by omega, seen⟩))
  · rw [findFrom_eq_none, Set.eq_empty_iff_forall_notMem]
    constructor
    · intro clear c place
      obtain ⟨low, high, inside, seen⟩ := (hit c).1 place
      rw [clear c low high inside] at seen
      exact Bool.false_ne_true seen
    · intro none c low high inside
      exact Bool.eq_false_iff.2 fun seen => none c ((hit c).2 ⟨low, high, inside, seen⟩)

theorem findFrom_id_findsLeast (ws : Words) (word count : Nat) :
    FindsLeast (ws.findFrom id word count)
      (ws.hits true (32 * word) (min (32 * word + count) (32 * ws.size))) := by
  refine findFrom_findsLeast ws (fun b => ?_) word count
  rw [seen_id]

theorem findFirstSet_findsLeast (ws : Words) (capacity : Nat) :
    FindsLeast (ws.findFirstSet capacity) (ws.hits true 0 (min capacity (32 * ws.size))) := by
  have found := findFrom_id_findsLeast ws 0 capacity
  rwa [Nat.mul_zero, Nat.zero_add] at found

theorem findFirstClear_findsLeast (ws : Words) (capacity : Nat) :
    FindsLeast (ws.findFirstClear capacity) (ws.hits false 0 (min capacity (32 * ws.size))) := by
  have shows : ∀ b, ws.seen (~~~ ·) b = true ↔ ws.bit b = false := by
    intro b
    rw [seen_not, Bool.not_eq_true']
  have found := findFrom_findsLeast ws shows 0 capacity
  rwa [Nat.mul_zero, Nat.zero_add] at found

end Words

theorem Bitmap.findFirstSetIn_findsLeast {m : Bitmap} (small : m.capacity < 1 <<< 64)
    {start : Nat} (aligned : start % 32 = 0) (count : Nat) :
    ∃ found, m.findFirstSetIn start count = .ok found ∧
      Words.FindsLeast found (m.words.hits true start (min (start + count) m.capacity)) := by
  refine ⟨_, Bitmap.findFirstSetIn_eq small aligned count, ?_⟩
  have found := Words.findFrom_id_findsLeast m.words (start / 32)
    (min count (m.capacity - start))
  have back : 32 * (start / 32) = start := by omega
  have enough : m.capacity ≤ 32 * m.words.size := by
    have := m.enough
    unfold wordsFor at this
    omega
  -- A window that starts behind the capacity is empty, wherever it is said to stop.
  have clipped : ∀ b, start ≤ b →
      (b < min (start + min count (m.capacity - start)) (32 * m.words.size) ↔
        b < min (start + count) m.capacity) := by
    omega
  rwa [back, Words.hits_congr clipped] at found

namespace Words

/-- A scan finds the least place below the capacity and the end of the words, and a window of a
bit set the least one in it below the capacity.  No capacity of 64 bits makes them stop. -/
theorem scans_find_least :
    (∀ (ws : Words) (capacity : Nat), capacity < 1 <<< 64 →
      (ws.findFirstSetChecked capacity = .ok (ws.findFirstSet capacity) ∧
        FindsLeast (ws.findFirstSet capacity)
          (ws.hits true 0 (min capacity (32 * ws.size)))) ∧
      ws.findFirstClearChecked capacity = .ok (ws.findFirstClear capacity) ∧
        FindsLeast (ws.findFirstClear capacity)
          (ws.hits false 0 (min capacity (32 * ws.size)))) ∧
    ∀ (m : Bitmap) (start count : Nat), m.capacity < 1 <<< 64 → start % 32 = 0 →
      ∃ found, m.findFirstSetIn start count = .ok found ∧
        FindsLeast found (m.words.hits true start (min (start + count) m.capacity)) := by
  refine ⟨fun ws capacity small => ?_, fun m start count small aligned => ?_⟩
  · exact ⟨⟨findFirstChecked_eq small, findFirstSet_findsLeast ws capacity⟩,
      findFirstChecked_eq small, findFirstClear_findsLeast ws capacity⟩
  · exact Bitmap.findFirstSetIn_findsLeast small aligned count

def withPadding : Bitmap := ⟨#[0, 0x80000100], 41, by decide⟩

theorem scans_find_least_padded :
    (withPadding.capacity < 1 <<< 64 ∧ 32 % 32 = 0) ∧
    (findFirstSetChecked withPadding.words 41 = .ok (findFirstSet withPadding.words 41) ∧
      FindsLeast (findFirstSet withPadding.words 41)
        (hits withPadding.words true 0 (min 41 64))) ∧
    ∃ found, withPadding.findFirstSetIn 32 0xFFFFFFFFFFFFFFFF = .ok found ∧
      FindsLeast found (hits withPadding.words true 32 (min (32 + 0xFFFFFFFFFFFFFFFF) 41)) := by
  have small : withPadding.capacity < 1 <<< 64 := by decide
  obtain ⟨scans, windows⟩ := scans_find_least
  exact ⟨⟨small, by decide⟩, (scans withPadding.words 41 small).1,
    windows withPadding 32 0xFFFFFFFFFFFFFFFF small (by decide)⟩

example : (⟨#[0, 0x80000100], 41, by decide⟩ : Bitmap).findFirstSetIn 32 0xFFFFFFFFFFFFFFFF =
    .ok (some 40) := by
  cbv

end Words
end Ia32Memory
