import Ia32Memory.Bits.Field
import Ia32Memory.Bits.Words

/-! Usage counters of 16 bits, two to a word, the even one in the lower half. -/

namespace Ia32Memory

abbrev Counters := Array Word

namespace Counters

def half (i : Nat) : Field := ⟨"usage", 16 * (i % 2), 16⟩

def count (cs : Counters) (i : Nat) : Nat := (half i).get (cs.getD (i / 2) 0)

def put (cs : Counters) (i n : Nat) : Counters :=
  cs.modify (i / 2) fun w => (half i).put w n

def max : Nat := 65535

@[simp] theorem size_put (cs : Counters) (i n : Nat) : (cs.put i n).size = cs.size := by
  simp [put]

theorem half_get_put (i j n : Nat) (w : Word) (h : i % 2 = j % 2 → i = j) (hn : n ≤ max) :
    (half j).get ((half i).put w n) = if i = j then n else (half j).get w := by
  have hfits : (half j).offset + (half j).width ≤ 32 := by
    simp only [half]
    omega
  by_cases hij : i = j
  · subst hij
    rw [if_pos rfl]
    exact Field.get_put_self _ _ hfits hn
  · have hpar : i % 2 ≠ j % 2 := fun e => hij (h e)
    rw [if_neg hij]
    refine Field.get_put_other _ _ _ _ hfits ?_
    simp only [half]
    omega

theorem count_put {cs : Counters} {i n : Nat} (h : i / 2 < cs.size) (hn : n ≤ max) (j : Nat) :
    (cs.put i n).count j = if i = j then n else cs.count j := by
  unfold count put
  by_cases hw : i / 2 = j / 2
  · have hpar : i % 2 = j % 2 → i = j := by omega
    have hs : j / 2 < cs.size := hw ▸ h
    simp only [Array.getD_eq_getD_getElem?, Array.getElem?_modify, hw, if_true,
      Array.getElem?_eq_getElem hs, Option.map_some, Option.getD_some]
    exact half_get_put i j n _ hpar hn
  · have hij : i ≠ j := fun e => hw (congrArg (· / 2) e)
    simp only [Array.getD_eq_getD_getElem?, Array.getElem?_modify, hw, if_false, hij]

end Counters
end Ia32Memory
