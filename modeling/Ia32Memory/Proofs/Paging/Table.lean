import Mathlib.Data.Set.Card
import Ia32Memory.Paging.Table
import Ia32Memory.Proofs.Paging.Entry

/-! How many entries of a table are present.
One write changes the count by what it changes of its own entry, and the count is positive exactly
when some entry is present. -/

namespace Ia32Memory.EntryTable
variable {t : EntryTable} {s : Slot} {e : Entry}

theorem presentCount_zero : presentCount zero = 0 := by
  rw [presentCount, List.countP_eq_zero]
  intro e mem
  have blank : e = 0 := by
    rw [zero, Vector.toList_replicate] at mem
    exact List.eq_of_mem_replicate mem
  rw [blank, Entry.present_zero]
  exact Bool.false_ne_true

theorem presentCount_le (t : EntryTable) : t.presentCount ≤ 1024 := by
  have length : t.toList.length = 1024 := Vector.length_toList
  exact Nat.le_trans List.countP_le_length (Nat.le_of_eq length)

theorem present_le_presentCount (h : (t.entry s).present = true) : 1 ≤ t.presentCount := by
  refine List.countP_pos_iff.2 ⟨t.entry s, ?_, h⟩
  rw [entry, Vector.mem_toList_iff]
  exact Vector.getElem_mem s.isLt

theorem exists_present (h : 1 ≤ t.presentCount) : ∃ s, (t.entry s).present = true := by
  obtain ⟨e, mem, present⟩ := List.countP_pos_iff.1 h
  obtain ⟨i, inside, rfl⟩ := Vector.getElem_of_mem (Vector.mem_toList_iff.1 mem)
  exact ⟨⟨i, inside⟩, present⟩

theorem presentCount_eq_ncard (t : EntryTable) :
    t.presentCount = {s | (t.entry s).present = true}.ncard := by
  let slots := (List.finRange 1024).filter fun s => (t.entry s).present
  have whole : t.toList = (List.finRange 1024).map t.entry := by
    refine List.ext_getElem ?_ fun i inside inside' => ?_
    · rw [Vector.length_toList, List.length_map, List.length_finRange]
    · rw [List.getElem_map, List.getElem_finRange, Vector.getElem_toList]
      rfl
  have listed : {s | (t.entry s).present = true} = ↑slots.toFinset := by
    ext s
    simp [slots]
  have once : slots.Nodup := (List.nodup_finRange 1024).filter _
  rw [listed, Set.ncard_coe_finset, List.toFinset_card_of_nodup once, presentCount, whole,
    List.countP_map, List.countP_eq_length_filter]
  rfl

theorem ext_entry {u : EntryTable} (same : ∀ s, u.entry s = t.entry s) : u = t :=
  Vector.ext fun i inside => same ⟨i, inside⟩

theorem presentCount_put (t : EntryTable) (s : Slot) (e : Entry) :
    (t.put s e).presentCount =
      t.presentCount - (if (t.entry s).present then 1 else 0) + if e.present then 1 else 0 := by
  have inside : s.val < t.toList.length := by
    rw [Vector.length_toList]
    exact s.isLt
  rw [presentCount, put, Vector.toList_set, List.countP_set inside]
  rw [Vector.getElem_toList]
  rfl

theorem presentCount_fill (old : (t.entry s).present = false) (new : e.present = true) :
    (t.put s e).presentCount = t.presentCount + 1 := by
  simp [presentCount_put, old, new]

theorem presentCount_blank (old : (t.entry s).present = true) :
    (t.put s 0).presentCount = t.presentCount - 1 := by
  rw [presentCount_put, if_pos old, Entry.present_zero]
  rfl

theorem presentCount_rewrite (old : (t.entry s).present = true) (new : e.present = true) :
    (t.put s e).presentCount = t.presentCount := by
  have positive := present_le_presentCount old
  simp [presentCount_put, old, new]
  omega

theorem not_present_of_presentCount_eq_zero (h : t.presentCount = 0) (s : Slot) :
    (t.entry s).present = false := by
  refine Bool.eq_false_iff.2 fun present => ?_
  have positive := present_le_presentCount present
  omega

end Ia32Memory.EntryTable
