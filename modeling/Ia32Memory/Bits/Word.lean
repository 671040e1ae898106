/-! Words of 32 bits, bit 0 the lowest. -/

namespace Ia32Memory

abbrev Word := BitVec 32

namespace Word

def width : Nat := 32

def allOnes : Word := BitVec.allOnes 32

def ones (lead count : Nat) : Word :=
  (BitVec.allOnes count).setWidth 32 <<< lead

def lowest? (w : Word) : Option Nat :=
  if w = 0 then none else (List.range 32).find? (w.getLsbD ·)

@[simp] theorem getLsbD_allOnes (i : Nat) : allOnes.getLsbD i = decide (i < 32) :=
  BitVec.getLsbD_allOnes

theorem getLsbD_ones (lead count i : Nat) :
    (ones lead count).getLsbD i = decide (i < 32 ∧ lead ≤ i ∧ i < lead + count) := by
  simp only [ones, BitVec.getLsbD_shiftLeft, BitVec.getLsbD_setWidth, BitVec.getLsbD_allOnes]
  by_cases hi : i < 32 <;> by_cases hl : lead ≤ i <;> by_cases hc : i < lead + count <;>
    simp [hi, hl, hc] <;> omega

@[simp] theorem getElem_ones (lead count i : Nat) (h : i < 32) :
    (ones lead count)[i] = decide (lead ≤ i ∧ i < lead + count) := by
  rw [← BitVec.getLsbD_eq_getElem, getLsbD_ones]
  simp [h]

theorem lowest?_eq_some {w : Word} {i : Nat} :
    w.lowest? = some i ↔ w.getLsbD i = true ∧ ∀ j < i, w.getLsbD j = false := by
  unfold lowest?
  by_cases h0 : w = 0
  · simp [h0]
  rw [if_neg h0, List.find?_range_eq_some]
  constructor
  · rintro ⟨hi, -, hlow⟩
    exact ⟨hi, fun j hj => by simpa using hlow j hj⟩
  · rintro ⟨hi, hlow⟩
    refine ⟨hi, ?_, fun j hj => by simp [hlow j hj]⟩
    exact List.mem_range.2 (BitVec.lt_of_getLsbD hi)

theorem lowest?_eq_none {w : Word} : w.lowest? = none ↔ w = 0 := by
  unfold lowest?
  by_cases h0 : w = 0
  · simp [h0]
  · simp only [h0, if_false, iff_false, List.find?_eq_none, List.mem_range]
    intro h
    apply h0
    apply BitVec.eq_of_getLsbD_eq
    intro i hi
    simpa using h i hi

end Word
end Ia32Memory
