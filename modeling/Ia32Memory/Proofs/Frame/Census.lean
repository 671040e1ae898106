import Mathlib.Data.Nat.Count
import Mathlib.Data.Set.Card
import Ia32Memory.Proofs.Frame.Pages

/-! Frames, counted.
The counts that an allocator keeps are the sizes of two sets, of the pages that are free and of
those that are in use.  So a request changes a count by as much as it changes a set. -/

namespace Ia32Memory

instance (k : AddressKind) : Finite (Page k) :=
  Finite.of_injective (fun p => (⟨p.number, p.isLt⟩ : Fin 0x100000)) fun _ _ same =>
    Page.ext (congrArg Fin.val same)

namespace FrameAllocator
variable {a b : FrameAllocator} {p : PhysicalPage} {n : Nat}

def usedPages (a : FrameAllocator) : Set PhysicalPage := {p | a.Holds p}

theorem Managing.ncard_indexed (ha : a.Managing) (P : Nat → Prop) [DecidablePred P] :
    {p | a.stats.Manages p ∧ P (a.stats.indexOf p)}.ncard =
      ((Finset.range a.stats.total).filter P).card := by
  have indices : a.stats.indexOf '' {p | a.stats.Manages p ∧ P (a.stats.indexOf p)} =
      ↑((Finset.range a.stats.total).filter P) := by
    ext i
    rw [Finset.coe_filter, Set.mem_image, Set.mem_ofPred_eq, Finset.mem_range]
    constructor
    · rintro ⟨p, ⟨managed, holds⟩, rfl⟩
      exact ⟨ha.addressable.indexOf_lt managed, holds⟩
    · rintro ⟨inside, holds⟩
      obtain ⟨p, -, managed, rfl⟩ := ha.addressable.frameAt_eq inside
      exact ⟨p, ⟨managed, holds⟩, rfl⟩
  have apart : Set.InjOn a.stats.indexOf {p | a.stats.Manages p ∧ P (a.stats.indexOf p)} :=
    fun p hp q hq same => (ha.addressable.indexOf_inj hp.1 hq.1).1 same
  rw [← apart.ncard_image, indices, Set.ncard_coe_finset]

theorem Managing.free_eq_ncard (ha : a.Managing) : a.stats.free = a.freePages.ncard := by
  have free : a.stats.free =
      ((Finset.range a.stats.total).filter fun i => a.freeBit i = true).card := by
    rw [ha.free, countSet_of_shaped ha.toShaped, ← Nat.count_eq_card_filter_range]
    simp [Nat.count]
  exact free.trans (ha.ncard_indexed fun i => a.freeBit i = true).symm

theorem Managing.used_eq_ncard (ha : a.Managing) : a.stats.used = a.usedPages.ncard := by
  have pages : a.usedPages =
      {p | a.stats.Manages p ∧ ¬a.freeBit (a.stats.indexOf p) = true} := by
    ext p
    exact and_congr_right fun managed => not_congr (and_iff_right managed)
  have whole := Finset.card_filter_add_card_filter_not (s := Finset.range a.stats.total)
    (fun i => a.freeBit i = true)
  rw [← ha.ncard_indexed, ← ha.ncard_indexed, ← pages, Finset.card_range] at whole
  have total := ha.used
  rw [ha.free_eq_ncard] at total
  exact Nat.add_left_cancel (total.trans whole.symm)

/-- Each frame that was taken counts once. -/
theorem Managing.used_of_taken {taken : Set PhysicalPage} (ha : a.Managing)
    (hb : b.Managing) (same : SameMemory a b) (wereFree : taken ⊆ a.freePages)
    (free : b.freePages = a.freePages \ taken) : b.stats.used = a.stats.used + taken.ncard := by
  have pages : b.usedPages = a.usedPages ∪ taken := by
    ext p
    simp only [usedPages, Set.mem_union, Set.mem_ofPred_eq, Holds, same.manages, free,
      Set.mem_sdiff, not_and_or, not_not]
    constructor
    · rintro ⟨managed, used | now⟩
      · exact Or.inl ⟨managed, used⟩
      · exact Or.inr now
    · rintro (⟨managed, used⟩ | now)
      · exact ⟨managed, Or.inl used⟩
      · exact ⟨(wereFree now).1, Or.inr now⟩
  have apart : Disjoint a.usedPages taken :=
    Set.disjoint_left.2 fun p used now => used.2 (wereFree now)
  rw [hb.used_eq_ncard, ha.used_eq_ncard, pages,
    Set.ncard_union_eq apart (Set.toFinite _) (Set.toFinite _)]

theorem Became.free_taken (ha : a.Managing) (free : p ∈ a.freePages)
    (became : Became a b (a.freePages \ {p})) : b.stats.free + 1 = a.stats.free := by
  rw [became.managing.free_eq_ncard, ha.free_eq_ncard, became.free,
    Set.ncard_sdiff_singleton_add_one free (Set.toFinite _)]

theorem Counted.free_eq (ha : a.Managing) (counted : Counted a b p n) :
    b.stats.free = a.stats.free := by
  rw [counted.managing.free_eq_ncard, ha.free_eq_ncard, counted.free]

theorem free_of_small (ready : setup ⟨8, 32⟩ smallImage (Array.replicate 7 0) = .ok (.ok a)) :
    a.stats.free = 8 := by
  have answer : ((setup ⟨8, 32⟩ smallImage (Array.replicate 7 0)).toOption.bind
      Except.toOption).map (·.stats.free) = some 8 := by decide +kernel
  rw [ready] at answer
  exact Option.some.inj answer

end FrameAllocator
end Ia32Memory
