import Ia32Memory.Fault

/-! Named fields of a register or descriptor.
A field is a run of bits; fields of width one are flags.  A layout names the fields that may be
read and written and gives the value of a fresh register.  Bits in no listed field are kept. -/

namespace Ia32Memory

structure Field where
  name : String
  offset : Nat
  width : Nat

namespace Field
variable {n : Nat}

def flag (name : String) (offset : Nat) : Field := ⟨name, offset, 1⟩

def isFlag (f : Field) : Bool := f.width == 1

def max (f : Field) : Nat := (BitVec.allOnes f.width).toNat

def mask (f : Field) : BitVec n := (BitVec.allOnes f.width).setWidth n <<< f.offset

def get (f : Field) (w : BitVec n) : Nat := (w.extractLsb' f.offset f.width).toNat

def isSet (f : Field) (w : BitVec n) : Bool := w.getLsbD f.offset

def put (f : Field) (w : BitVec n) (value : Nat) : BitVec n :=
  (w &&& ~~~ f.mask) ||| (BitVec.ofNat f.width value).setWidth n <<< f.offset

def assign (f : Field) (w : BitVec n) (value : Bool) : BitVec n :=
  f.put w value.toNat

/-- Replaces the field by a value that has to fit it. -/
def putChecked (f : Field) (w : BitVec n) (value : Nat) : Except Fault (BitVec n) :=
  if value ≤ f.max then .ok (f.put w value) else .error (.valueTooLarge f.max)

end Field

structure Layout (n : Nat) where
  fields : List Field
  fresh : BitVec n

namespace Layout
variable {n : Nat}

def field? (l : Layout n) (name : String) : Option Field :=
  l.fields.find? (·.name == name)

def values (l : Layout n) (w : BitVec n) : List (Field × Nat) :=
  l.fields.map fun f => (f, f.get w)

end Layout

namespace Field
variable {n : Nat}

theorem getLsbD_mask (f : Field) (i : Nat) :
    (f.mask : BitVec n).getLsbD i = decide (i < n ∧ f.offset ≤ i ∧ i < f.offset + f.width) := by
  simp only [mask, BitVec.getLsbD_shiftLeft, BitVec.getLsbD_setWidth, BitVec.getLsbD_allOnes]
  by_cases hi : i < n <;> by_cases hl : f.offset ≤ i <;> by_cases hc : i < f.offset + f.width <;>
    simp [hi, hl, hc] <;> omega

theorem getLsbD_put (f : Field) (w : BitVec n) (value i : Nat) (h : i < n) :
    (f.put w value).getLsbD i =
      if f.offset ≤ i ∧ i < f.offset + f.width then value.testBit (i - f.offset)
      else w.getLsbD i := by
  simp only [put, BitVec.getLsbD_or, BitVec.getLsbD_and, BitVec.getLsbD_not, getLsbD_mask,
    BitVec.getLsbD_shiftLeft, BitVec.getLsbD_setWidth, BitVec.getLsbD_ofNat, h]
  split
  · rename_i hin
    have hw : i - f.offset < f.width := by omega
    have hn : i - f.offset < n := by omega
    simp [hin, hw, hn]
  · rename_i hout
    by_cases hl : f.offset ≤ i
    · have hw : ¬ i - f.offset < f.width := by omega
      have hc : ¬ i < f.offset + f.width := by omega
      simp [hl, hw, hc]
    · simp [hl, Nat.lt_of_not_le hl]

theorem get_put_self (f : Field) (w : BitVec n) {value : Nat} (h : f.offset + f.width ≤ n)
    (hv : value ≤ f.max) : f.get (f.put w value) = value := by
  have hbits : (f.put w value).extractLsb' f.offset f.width = BitVec.ofNat f.width value := by
    apply BitVec.eq_of_getLsbD_eq
    intro i hi
    rw [BitVec.getLsbD_extractLsb', getLsbD_put _ _ _ _ (by omega), if_pos (by omega),
      Nat.add_sub_cancel_left, BitVec.getLsbD_ofNat]
  have hpow : 0 < 2 ^ f.width := Nat.two_pow_pos _
  rw [max, BitVec.toNat_allOnes] at hv
  rw [get, hbits, BitVec.toNat_ofNat, Nat.mod_eq_of_lt (by omega)]

theorem get_put_other (f g : Field) (w : BitVec n) (value : Nat) (h : f.offset + f.width ≤ n)
    (hd : f.offset + f.width ≤ g.offset ∨ g.offset + g.width ≤ f.offset) :
    f.get (g.put w value) = f.get w := by
  unfold get
  congr 1
  apply BitVec.eq_of_getLsbD_eq
  intro i hi
  rw [BitVec.getLsbD_extractLsb', BitVec.getLsbD_extractLsb', getLsbD_put _ _ _ _ (by omega),
    if_neg (by omega)]

theorem getLsbD_assign {g : Field} (hg : g.width = 1) (w : BitVec n) (b : Bool) {i : Nat}
    (h : i < n) : (g.assign w b).getLsbD i = if i = g.offset then b else w.getLsbD i := by
  simp only [assign, getLsbD_put _ _ _ _ h, hg]
  by_cases here : i = g.offset
  · cases b <;> simp [here]
  · rw [if_neg (by omega), if_neg here]

theorem isSet_assign (f g : Field) (hg : g.width = 1) (w : BitVec n) (b : Bool)
    (hn : f.offset < n) :
    f.isSet (g.assign w b) = if f.offset = g.offset then b else f.isSet w :=
  getLsbD_assign hg w b hn

end Field
end Ia32Memory
