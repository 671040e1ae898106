import Ia32Memory.Machine.View

/-! Address spaces: a directory and the tables it links, with the view in which they are reached.
The kernel's own walk through them stops with a fault at a link for 4 MiB, which the processor's
walk does not know. -/

namespace Ia32Memory

structure AddressSpace where
  root : PhysicalPage
  view : View
  deriving DecidableEq

/-- A table as a slot links it.  Its frame is what is counted and released; its entries are read and
edited in the frame that is shown, which is the same one where memory lies open. -/
structure LinkedTable where
  frame : PhysicalPage
  shown : PhysicalPage
  deriving DecidableEq

structure Walk where
  address : VirtualAddress
  link : Entry
  leaf : Option Entry
  deriving DecidableEq

namespace Walk

def directorySlot (w : Walk) : Slot := w.address.page.directorySlot

def tableSlot (w : Walk) : Slot := w.address.page.tableSlot

def target? (w : Walk) : Option PhysicalAddress :=
  (w.leaf.bind Entry.mapped?).map fun (frame, _) => frame.join w.address.offset

def entryText (e : Entry) : String := "0x" ++ Hexadecimal.lower 8 e.toNat

def text (w : Walk) : String :=
  let head := w.address.text ++ s!": PDE[{w.directorySlot.val}]=" ++ entryText w.link
  match w.leaf with
  | none => head ++ " (no table)"
  | some leaf =>
    let head := head ++ s!" PTE[{w.tableSlot.val}]=" ++ entryText leaf
    match w.target? with
    | some a => head ++ " -> " ++ a.text
    | none => head ++ " (not present)"

end Walk

namespace AddressSpace

def ofRoot (root : PhysicalPage) : AddressSpace := ⟨root, .physical⟩

def directoryIn (s : AddressSpace) (m : PhysicalMemory) : Except Fault PhysicalPage :=
  s.view.frameIn m Slot.directoryWindow s.root

def tableIn (s : AddressSpace) (m : PhysicalMemory) (directory : PhysicalPage) (slot : Slot) :
    Except Fault (Option LinkedTable) := do
  let some frame ← Entry.table? (m.word directory slot) | return none
  return some ⟨frame, ← s.view.frameIn m slot.window frame⟩

def entryIn (s : AddressSpace) (m : PhysicalMemory) (page : VirtualPage) :
    Except Fault (Option Entry) := do
  let table ← s.tableIn m (← s.directoryIn m) page.directorySlot
  return table.map fun t => m.word t.shown page.tableSlot

def walkIn (s : AddressSpace) (m : PhysicalMemory) (address : VirtualAddress) :
    Except Fault Walk := do
  let link := m.word (← s.directoryIn m) address.page.directorySlot
  return ⟨address, link, ← s.entryIn m address.page⟩

def queryIn (s : AddressSpace) (m : PhysicalMemory) (address : VirtualAddress) :
    Except Fault (Option PhysicalAddress) := do
  let walk ← s.walkIn m address
  return walk.target?

end AddressSpace
end Ia32Memory
