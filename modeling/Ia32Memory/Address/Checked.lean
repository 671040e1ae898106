import Ia32Memory.Fault

/-! Address arithmetic in which leaving the address range or a page is a fault. -/

namespace Ia32Memory
variable {k : AddressKind}

def Address.add (a : Address k) (n : Nat) : Except Fault (Address k) :=
  orFault .overflow (a.add? n)

def Page.ofAligned (a : Address k) : Except Fault (Page k) :=
  orFault .unalignedPage (Page.ofAligned? a)

def PageOffset.ofNat (n : Nat) : Except Fault PageOffset :=
  if h : n < 4096 then .ok ⟨n, h⟩ else .error .offsetTooLarge

theorem Address.add_eq_ok {a b : Address k} {n : Nat} :
    a.add n = .ok b ↔ a.toNat + n = b.toNat := by
  have hb := b.isLt
  unfold Address.add Address.add? Address.ofNat?
  split
  · rename_i h
    simp [orFault, Address.ext_iff]
  · rename_i h
    simp only [orFault, reduceCtorEq, false_iff]
    omega

end Ia32Memory
