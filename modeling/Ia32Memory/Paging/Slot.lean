import Ia32Memory.Address.Checked

/-! Slots of directories and tables.
The upper ten bits of a page number choose the directory slot, the lower ten the table slot.  The
last directory slot links the directory itself, so the 4 MiB it covers show the tables of all
slots in order, the last of them being the directory. -/

namespace Ia32Memory

abbrev Slot := Fin 1024

namespace Slot

def ofNat (n : Nat) : Except Fault Slot :=
  if h : n < 1024 then .ok ⟨n, h⟩ else .error .indexTooLarge

def first : Slot := ⟨0, by decide⟩

def recursive : Slot := 1023

def IsRecursive (s : Slot) : Prop := s = recursive

instance (s : Slot) : Decidable s.IsRecursive := inferInstanceAs (Decidable (s = recursive))

def base (s : Slot) : VirtualAddress := ⟨s.val * 0x400000, by omega⟩

/-- The page at which the table of a directory slot is seen. -/
def window (s : Slot) : VirtualPage := ⟨1023 * 1024 + s.val, by omega⟩

def directoryWindow : VirtualPage := recursive.window

end Slot

namespace Page

def directorySlot (p : VirtualPage) : Slot := ⟨p.number / 1024, by have := p.isLt; omega⟩

def tableSlot (p : VirtualPage) : Slot := ⟨p.number % 1024, by omega⟩

def ofSlots (d t : Slot) : VirtualPage := ⟨d.val * 1024 + t.val, by omega⟩

@[simp] theorem directorySlot_ofSlots (d t : Slot) : (ofSlots d t).directorySlot = d := by
  apply Fin.ext
  simp only [directorySlot, ofSlots]
  omega

@[simp] theorem tableSlot_ofSlots (d t : Slot) : (ofSlots d t).tableSlot = t := by
  apply Fin.ext
  simp only [tableSlot, ofSlots]
  omega

@[simp] theorem ofSlots_slots (p : VirtualPage) : ofSlots p.directorySlot p.tableSlot = p := by
  ext
  simp only [directorySlot, tableSlot, ofSlots]
  omega

end Page

theorem Slot.window_eq (s : Slot) : s.window = Page.ofSlots recursive s := rfl

theorem Slot.directorySlot_window (s : Slot) : s.window.directorySlot = recursive :=
  Page.directorySlot_ofSlots recursive s

theorem Slot.tableSlot_window (s : Slot) : s.window.tableSlot = s :=
  Page.tableSlot_ofSlots recursive s

end Ia32Memory
