import Ia32Memory.Proofs.Paging.Entry

/-! Entries bit by bit.
The frame has the upper twenty bits of an entry and the flags the lower twelve.  Making an entry
fixes two of the flags, so what comes back are the frame and the flags so cleaned, and an entry
that was taken apart and made anew differs from what it was in its large flag only. -/

namespace Ia32Memory.Entry

/-- The flags as an entry holds them: present, not large, and no bit of a frame among them. -/
def sanitized (flags : Entry) : Entry :=
  (flags &&& Word.ones 0 12 &&& ~~~ Word.ones 7 1) ||| Word.ones 0 1

theorem getLsbD_sanitized (flags : Entry) (i : Nat) :
    flags.sanitized.getLsbD i =
      if i = 0 then true else if i = 7 ∨ 12 ≤ i then false else flags.getLsbD i := by
  simp only [sanitized, BitVec.getLsbD_or, BitVec.getLsbD_and, BitVec.getLsbD_not,
    Word.getLsbD_ones]
  grind

example : sanitized 0xFFFFFFFE = 0xF7F := by decide

theorem getLsbD_withWritable (e : Entry) (b : Bool) (i : Nat) :
    (e.withWritable b).getLsbD i = if i = 1 then b else e.getLsbD i := by
  rcases Nat.lt_or_ge i 32 with inside | outside
  · exact Field.getLsbD_assign rfl e b inside
  · rw [BitVec.getLsbD_of_ge _ _ outside, BitVec.getLsbD_of_ge _ _ outside, if_neg (by omega)]

theorem getLsbD_withFrame (e : Entry) (p : PhysicalPage) (i : Nat) :
    (e.withFrame p).getLsbD i = if i < 12 then e.getLsbD i else p.number.testBit (i - 12) := by
  rcases Nat.lt_or_ge i 32 with inside | outside
  · rw [withFrame, Field.getLsbD_put _ _ _ _ inside]
    by_cases low : i < 12
    · rw [if_pos low, if_neg fun high => absurd high.1 (Nat.not_le_of_lt low)]
    · rw [if_neg low, if_pos ⟨Nat.le_of_not_lt low, inside⟩]
      rfl
  · have wide : 2 ^ 20 ≤ 2 ^ (i - 12) := Nat.pow_le_pow_right (by decide) (by omega)
    have small : p.number < 2 ^ (i - 12) := Nat.lt_of_lt_of_le p.isLt wide
    rw [BitVec.getLsbD_of_ge _ _ outside, if_neg (by omega), Nat.testBit_lt_two_pow small]

theorem putChecked_frameField (e : Entry) (p : PhysicalPage) :
    frameField.putChecked e p.number = .ok (e.withFrame p) :=
  if_pos (Nat.le_of_lt_succ p.isLt)

theorem getLsbD_flagsOnly (e : Entry) (i : Nat) :
    e.flagsOnly.getLsbD i = if i < 12 then e.getLsbD i else false := by
  have blank := getLsbD_withFrame e .first i
  rwa [show (Page.first : PhysicalPage).number.testBit (i - 12) = false from Nat.zero_testBit _]
    at blank

theorem getLsbD_aimedAt (frame : PhysicalPage) (flags : Entry) (i : Nat) :
    (aimedAt frame flags).getLsbD i =
      if i < 12 then flags.sanitized.getLsbD i else frame.number.testBit (i - 12) := by
  rw [aimedAt, getLsbD_withFrame]
  by_cases low : i < 12
  · have inside : i < 32 := by omega
    rw [if_pos low, if_pos low, getLsbD_sanitized, Field.getLsbD_assign rfl _ _ inside,
      Field.getLsbD_assign rfl _ _ inside]
    simp only [presentField, largeField, Field.flag]
    grind
  · rw [if_neg low, if_neg low]

theorem leafFlags_eq (flags : Entry) : leafFlags flags = flags.sanitized := by
  have whole : (aimedAt .first flags).flagsOnly = leafFlags flags := flagsOnly_aimedAt
  apply BitVec.eq_of_getLsbD_eq
  intro i _
  rw [← whole, getLsbD_flagsOnly, getLsbD_aimedAt, getLsbD_sanitized]
  grind

theorem testBit_number_frame (e : Entry) {i : Nat} (high : 12 ≤ i) :
    e.frame.number.testBit (i - 12) = e.getLsbD i := by
  have same : e.withFrame e.frame = e := Field.put_get frameField
  have bit := getLsbD_withFrame e e.frame i
  rw [same, if_neg (by omega)] at bit
  exact bit.symm

theorem aimedAt_frame_flagsOnly {e : Entry} (present : e.present = true) :
    aimedAt e.frame e.flagsOnly = e &&& ~~~ Word.ones 7 1 := by
  have first : e.getLsbD 0 = true := present
  apply BitVec.eq_of_getLsbD_eq
  intro i inside
  rw [getLsbD_aimedAt, getLsbD_sanitized, getLsbD_flagsOnly, BitVec.getLsbD_and,
    BitVec.getLsbD_not, Word.getLsbD_ones]
  by_cases low : i < 12
  · grind
  · rw [if_neg low, testBit_number_frame e (by omega)]
    grind

theorem table?_aimedAt (frame : PhysicalPage) (flags : Entry) :
    (aimedAt frame flags).table? = .ok (some frame) := by
  rw [table?, if_pos present_aimedAt, large_aimedAt, frame_aimedAt]
  rfl

theorem aimedAt_inj {p q : PhysicalPage} {f g : Entry} :
    aimedAt p f = aimedAt q g ↔ p = q ∧ f.sanitized = g.sanitized := by
  constructor
  · intro same
    have parts := congrArg mapped? same
    rw [mapped?_aimedAt, mapped?_aimedAt, leafFlags_eq, leafFlags_eq] at parts
    exact Prod.mk.inj (Option.some.inj parts)
  · rintro ⟨rfl, same⟩
    apply BitVec.eq_of_getLsbD_eq
    intro i _
    rw [getLsbD_aimedAt, getLsbD_aimedAt, same]

theorem testBit_number_page (a : PhysicalAddress) {i : Nat} (high : 12 ≤ i) :
    a.page.number.testBit (i - 12) = a.toNat.testBit i := by
  rw [Address.number_page, show 4096 = 2 ^ 12 from rfl, Nat.testBit_div_two_pow,
    Nat.sub_add_cancel high]

/-- Entries are made and taken apart without loss: the frame comes back with the cleaned flags,
an entry made anew differs in its large flag only, each edit changes the bits of its own field and
no others, and equal entries have equal frames and cleaned flags. -/
theorem entries_encode_exactly :
    (∀ (p : PhysicalPage) (flags : Entry),
      (aimedAt p flags).mapped? = some (p, flags.sanitized) ∧
        (aimedAt p flags).table? = .ok (some p)) ∧
    (∀ e : Entry, e.mapped?.map (fun v => aimedAt v.1 v.2) =
      if e.present then some (e &&& ~~~ Word.ones 7 1) else none) ∧
    (∀ (e : Entry) (b : Bool) (i : Nat),
      (e.withWritable b).getLsbD i = if i = 1 then b else e.getLsbD i) ∧
    (∀ (e : Entry) (a : PhysicalAddress),
      frameField.putChecked e a.page.number = .ok (e.withFrame a.page) ∧ ∀ i,
        (e.withFrame a.page).getLsbD i = if i < 12 then e.getLsbD i else a.toNat.testBit i) ∧
    (∀ (e : Entry) (i : Nat),
      e.flagsOnly.getLsbD i = if i < 12 then e.getLsbD i else false) ∧
    ∀ (p q : PhysicalPage) (f g : Entry),
      aimedAt p f = aimedAt q g ↔ p = q ∧ f.sanitized = g.sanitized := by
  refine ⟨fun p flags => ⟨?_, table?_aimedAt p flags⟩, fun e => ?_, getLsbD_withWritable,
    fun e a => ⟨putChecked_frameField e a.page, fun i => ?_⟩, getLsbD_flagsOnly,
    fun p q f g => aimedAt_inj⟩
  · rw [mapped?_aimedAt, leafFlags_eq]
  · cases present : e.present with
    | true =>
      rw [mapped?_of_present present, Option.map_some, aimedAt_frame_flagsOnly present]
      rfl
    | false =>
      rw [mapped?_eq_none.2 present]
      rfl
  · rw [getLsbD_withFrame]
    split
    · rfl
    · exact testBit_number_page a (by omega)

end Ia32Memory.Entry
