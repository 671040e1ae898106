import Ia32Memory.Paging.Entry
import Ia32Memory.Paging.Slot

/-! A frame of 1024 entries, which serves as a page directory or as a page table. -/

namespace Ia32Memory

abbrev EntryTable := Vector Entry 1024

namespace EntryTable

def zero : EntryTable := Vector.replicate 1024 0

def entry (t : EntryTable) (s : Slot) : Entry := t[s.val]

def put (t : EntryTable) (s : Slot) (e : Entry) : EntryTable := t.set s.val e

def presentCount (t : EntryTable) : Nat := t.toList.countP Entry.present

@[simp] theorem entry_zero (s : Slot) : zero.entry s = 0 := by
  simp [entry, zero]

theorem entry_put (t : EntryTable) (s r : Slot) (e : Entry) :
    (t.put s e).entry r = if s = r then e else t.entry r := by
  simp only [entry, put, Vector.getElem_set, Fin.ext_iff]

end EntryTable
end Ia32Memory
