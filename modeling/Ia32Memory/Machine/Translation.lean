import Ia32Memory.Boot.AddressMap
import Ia32Memory.Machine.Memory

/-! The processor's way to memory.
Until paging is on, all of memory is seen at `AddressMap.kernelOffset`.  From then on an address
goes through the active directory and the table that its slot links, and gets the permissions of
both.  The processor knows no pages of 4 MiB, and there is nothing beyond the end of memory. -/

namespace Ia32Memory

/-- Where the processor finds an address, and what it may do there. -/
structure Translation where
  address : PhysicalAddress
  writable : Bool
  userAccess : Bool
  deriving DecidableEq

structure Processor where
  memoryBytes : Nat
  directory : Option PhysicalPage
  deriving DecidableEq

namespace Processor

def Reaches (c : Processor) (a : PhysicalAddress) : Prop := a.toNat < c.memoryBytes

instance (c : Processor) (a : PhysicalAddress) : Decidable (c.Reaches a) :=
  inferInstanceAs (Decidable (a.toNat < c.memoryBytes))

def entry? (c : Processor) (m : PhysicalMemory) (frame : PhysicalPage) (slot : Slot) :
    Option Entry :=
  let e : Entry := m.word frame slot
  if c.Reaches frame.base ∧ e.present then some e else none

/-- The walk of an address under a directory, wherever it leads. -/
def walk? (c : Processor) (m : PhysicalMemory) (root : PhysicalPage) (a : VirtualAddress) :
    Option Translation := do
  let link ← c.entry? m root a.page.directorySlot
  let leaf ← c.entry? m link.frame a.page.tableSlot
  return ⟨leaf.frame.join a.offset, link.writable && leaf.writable,
    link.userAccess && leaf.userAccess⟩

def translate (c : Processor) (m : PhysicalMemory) (a : VirtualAddress) : Option Translation :=
  let found : Option Translation := match c.directory with
    | none => some ⟨AddressMap.toPhysical a.toNat, true, true⟩
    | some root => c.walk? m root a
  found.filter fun t => c.Reaches t.address

end Processor
end Ia32Memory
