import Ia32Memory.Machine.Page
import Ia32Memory.Proofs.Machine.Basic
import Ia32Memory.Proofs.Paging.Table

/-! What holds of an address space between operations, and the map that it stands for.
The last slot of the directory links the directory.  Every other slot that is in use links a table
of its own, in a frame that the allocator counts as used; the users of that frame are the entries
that are present.  Anything not in use is blank.  While an operation is under way one slot may be
bare: its table need not have an entry yet, or any longer. -/

namespace Ia32Memory

namespace AddressSpace

def link (s : AddressSpace) (m : PhysicalMemory) (d : Slot) : Entry := m.word s.root d

structure Links (s : AddressSpace) (m : PhysicalMemory) (d : Slot) (f : PhysicalPage) : Prop where
  ordinary : d ≠ .recursive
  present : (s.link m d).present = true
  frame : (s.link m d).frame = f

/-- Frame and flags of each page that is mapped outside the last slot. -/
def mapping (s : AddressSpace) (m : PhysicalMemory) (p : VirtualPage) :
    Option (PhysicalPage × Entry) :=
  if p.directorySlot = .recursive then none
  else if (s.link m p.directorySlot).present then
    Entry.mapped? (m.word (s.link m p.directorySlot).frame p.tableSlot)
  else none

structure LoopsBack (s : AddressSpace) (m : PhysicalMemory) : Prop where
  present : (s.link m .recursive).present = true
  frame : (s.link m .recursive).frame = s.root
  small : (s.link m .recursive).large = false

/-- The view shows the frames that are managed: memory lies open, or the processor runs under this
directory and reaches them all. -/
def Sees (s : AddressSpace) (stats : Stats) : Prop :=
  s.view = .physical ∨ ∃ c : Processor, s.view = .virtual c ∧ c.directory = some s.root ∧
    ∀ p, stats.Manages p → c.Reaches p.base

structure HoldsTable (m : Machine) (f : PhysicalPage) (least : Nat) : Prop where
  held : m.frames.Holds f
  counted : m.frames.users f = (m.memory.frame f).presentCount
  least : least ≤ (m.memory.frame f).presentCount
  blank : ∀ t, Entry.present (m.memory.word f t) = false → m.memory.word f t = 0

def fewest (bare : Option Slot) (d : Slot) : Nat := if bare = some d then 0 else 1

/-- What holds of a space between operations, or with the table of one slot bare. -/
structure Intact (s : AddressSpace) (m : Machine) (bare : Option Slot) : Prop where
  frames : m.frames.Managing
  fresh : ∀ p ∈ m.frames.freePages, m.frames.users p = 0
  sees : s.Sees m.frames.stats
  rootHeld : m.frames.Holds s.root
  loop : s.LoopsBack m.memory
  small : ∀ d f, s.Links m.memory d f → (s.link m.memory d).large = false
  notRoot : ∀ d f, s.Links m.memory d f → f ≠ s.root
  unique : ∀ d e f, s.Links m.memory d f → s.Links m.memory e f → d = e
  table : ∀ d f, s.Links m.memory d f → HoldsTable m f (fewest bare d)
  blank : ∀ d, (s.link m.memory d).present = false → s.link m.memory d = 0

/-- The frame is held, is neither the directory nor a table, and has so many users. -/
structure Apart (s : AddressSpace) (m : Machine) (f : PhysicalPage) (n : Nat) : Prop where
  held : m.frames.Holds f
  notRoot : f ≠ s.root
  notTable : ∀ d, ¬s.Links m.memory d f
  users : m.frames.users f = n

/-- An operation leaves the space intact and standing for another map; frames apart are let be. -/
structure Leaves (s : AddressSpace) (m m' : Machine) (bare : Option Slot)
    (map : VirtualPage → Option (PhysicalPage × Entry)) : Prop where
  intact : s.Intact m' bare
  mapping : s.mapping m'.memory = map
  apart : ∀ f n, s.Apart m f n → s.Apart m' f n
  sameMemory : m.frames.SameMemory m'.frames

variable {s : AddressSpace} {m m' m'' : Machine} {mem : PhysicalMemory} {bare : Option Slot}
  {d e t : Slot} {f g : PhysicalPage} {p q : VirtualPage} {n : Nat}
  {map map' : VirtualPage → Option (PhysicalPage × Entry)}

theorem Links.eq_frame (h : s.Links mem d f) (h' : s.Links mem d g) : f = g :=
  h.frame.symm.trans h'.frame

theorem links_of_present (ordinary : d ≠ .recursive) (present : (s.link mem d).present = true) :
    s.Links mem d (s.link mem d).frame := ⟨ordinary, present, rfl⟩

theorem HoldsTable.mono {least fewer : Nat} (h : HoldsTable m f least) (le : fewer ≤ least) :
    HoldsTable m f fewer :=
  ⟨h.held, h.counted, Nat.le_trans le h.least, h.blank⟩

theorem fewest_le (bare : Option Slot) (d : Slot) : fewest bare d ≤ 1 := by
  unfold fewest
  split <;> decide

theorem fewest_self (d : Slot) : fewest (some d) d = 0 := if_pos rfl

theorem fewest_of_ne (h : e ≠ d) : fewest (some d) e = 1 :=
  if_neg fun same => h (Option.some.inj same).symm

theorem Intact.toBare (h : s.Intact m none) (d : Slot) : s.Intact m (some d) :=
  { h with table := fun e f linked => (h.table e f linked).mono (fewest_le _ e) }

theorem Intact.toFull (h : s.Intact m (some d)) (linked : s.Links m.memory d f)
    (some : m.frames.users f ≠ 0) : s.Intact m none :=
  { h with
    table := fun e g other => by
      have there := h.table e g other
      by_cases same : e = d
      · subst same
        have frames := linked.eq_frame other
        subst frames
        refine ⟨there.held, there.counted, ?_, there.blank⟩
        rw [← there.counted]
        exact Nat.pos_of_ne_zero some
      · rw [fewest_of_ne same] at there
        exact there }

theorem Leaves.trans (h : s.Leaves m m' bare map) {bare' : Option Slot}
    (h' : s.Leaves m' m'' bare' map') : s.Leaves m m'' bare' map' :=
  ⟨h'.intact, h'.mapping, fun f n apart => h'.apart f n (h.apart f n apart),
    h.sameMemory.trans h'.sameMemory⟩

theorem mapping_of_recursive (h : p.directorySlot = .recursive) : s.mapping mem p = none :=
  if_pos h

theorem mapping_of_links (h : s.Links mem p.directorySlot f) :
    s.mapping mem p = Entry.mapped? (mem.word f p.tableSlot) := by
  rw [mapping, if_neg h.ordinary, if_pos h.present, h.frame]

theorem mapping_of_unlinked (h : (s.link mem p.directorySlot).present = false) :
    s.mapping mem p = none := by
  unfold mapping
  rw [h]
  split <;> rfl

theorem links_of_mapping {v : PhysicalPage × Entry} (h : s.mapping mem p = some v) :
    ∃ f, s.Links mem p.directorySlot f ∧ Entry.mapped? (mem.word f p.tableSlot) = some v := by
  by_cases last : p.directorySlot = .recursive
  · rw [mapping_of_recursive last] at h
    exact nomatch h
  · cases present : (s.link mem p.directorySlot).present with
    | false =>
      rw [mapping_of_unlinked present] at h
      exact nomatch h
    | true =>
      have linked := links_of_present last present
      exact ⟨_, linked, by rw [← mapping_of_links linked, h]⟩

theorem ordinary_of_mapping {v : PhysicalPage × Entry} (h : s.mapping mem p = some v) :
    p.directorySlot ≠ .recursive := by
  obtain ⟨f, linked, -⟩ := links_of_mapping h
  exact linked.ordinary

theorem Intact.exists_mapped (h : s.Intact m none) (linked : s.Links m.memory d f) :
    ∃ t, s.mapping m.memory (Page.ofSlots d t) ≠ none := by
  obtain ⟨t, present⟩ := EntryTable.exists_present (h.table d f linked).least
  refine ⟨t, ?_⟩
  have slots : s.Links m.memory (Page.ofSlots d t).directorySlot f := by
    rw [Page.directorySlot_ofSlots]
    exact linked
  rw [mapping_of_links slots, Page.tableSlot_ofSlots]
  exact fun none => Bool.eq_false_iff.1 (Entry.mapped?_eq_none.1 none) present

theorem Sees.frameIn_window {stats : Stats} (h : s.Sees stats) (root : stats.Manages s.root)
    (loop : s.LoopsBack mem) (present : (s.link mem d).present = true)
    (managed : stats.Manages (s.link mem d).frame) :
    s.view.frameIn mem d.window (s.link mem d).frame = .ok (s.link mem d).frame := by
  rcases h with physical | ⟨c, shown, active, reaches⟩
  · rw [physical]
    rfl
  · rw [shown]
    exact View.frameIn_window active (reaches _ root) loop.present loop.frame present rfl
      (reaches _ managed)

theorem Sees.frameIn_page {stats : Stats} {flags : Entry} (h : s.Sees stats)
    (root : stats.Manages s.root) (linked : (s.link mem p.directorySlot).present = true)
    (table : stats.Manages (s.link mem p.directorySlot).frame)
    (leaf : Entry.mapped? (mem.word (s.link mem p.directorySlot).frame p.tableSlot) =
      some (f, flags))
    (managed : stats.Manages f) : s.view.frameIn mem p f = .ok f := by
  rcases h with physical | ⟨c, shown, active, reaches⟩
  · rw [physical]
    rfl
  · have present : Entry.present
        (mem.word (s.link mem p.directorySlot).frame p.tableSlot) = true := by
      cases absent : Entry.present (mem.word (s.link mem p.directorySlot).frame p.tableSlot) with
      | true => rfl
      | false =>
        rw [Entry.mapped?_eq_none.2 absent] at leaf
        exact nomatch leaf
    rw [Entry.mapped?_of_present present, Option.some.injEq, Prod.mk.injEq] at leaf
    have start : f.join p.base.offset = f.base := by
      ext
      simp [Page.base, Page.join, Address.offset]
    have walk : c.walk? mem s.root p.base = some ⟨f.base,
        Entry.writable (s.link mem p.directorySlot) &&
          Entry.writable (mem.word (s.link mem p.directorySlot).frame p.tableSlot),
        Entry.userAccess (s.link mem p.directorySlot) &&
          Entry.userAccess (mem.word (s.link mem p.directorySlot).frame p.tableSlot)⟩ := by
      unfold link at linked table present leaf ⊢
      simp [Processor.walk?, Processor.entry?, reaches _ root, linked, reaches _ table, present,
        leaf.1, start]
    rw [shown]
    simp [View.frameIn, Processor.translate, active, walk, orFault, reaches _ managed, Except.map,
      Option.filter_some]

theorem Intact.directoryIn (h : s.Intact m bare) : s.directoryIn m.memory = .ok s.root := by
  have shown := h.sees.frameIn_window h.rootHeld.1 h.loop h.loop.present
    (by rw [h.loop.frame]; exact h.rootHeld.1)
  rwa [h.loop.frame] at shown

theorem Intact.tableIn_of_links (h : s.Intact m bare) (linked : s.Links m.memory d f) :
    s.tableIn m.memory s.root d = .ok (some ⟨f, f⟩) := by
  have held := (h.table d f linked).held
  have shown := h.sees.frameIn_window h.rootHeld.1 h.loop linked.present
    (by rw [linked.frame]; exact held.1)
  have small := h.small d f linked
  have present := linked.present
  rw [linked.frame] at shown
  have frame := linked.frame
  unfold link at small present frame
  simp only [tableIn, Entry.table?, present, small, frame, shown, if_true, Bool.false_eq_true,
    if_false, except_ok_bind]
  rfl

theorem Intact.tableIn_of_recursive (h : s.Intact m bare) :
    s.tableIn m.memory s.root .recursive = .ok (some ⟨s.root, s.root⟩) := by
  have shown := h.directoryIn
  obtain ⟨present, frame, small⟩ := h.loop
  unfold link at present frame small
  unfold AddressSpace.directoryIn Slot.directoryWindow at shown
  simp only [tableIn, Entry.table?, present, small, frame, shown, if_true, Bool.false_eq_true,
    if_false, except_ok_bind]
  rfl

theorem tableIn_of_unlinked (absent : (s.link mem d).present = false) :
    s.tableIn mem s.root d = .ok none := by
  unfold link at absent
  simp [tableIn, Entry.table?, absent]
  rfl

end AddressSpace
end Ia32Memory
