import Ia32Memory.Machine.Basic
import Ia32Memory.Machine.Walk

/-! Mapping single pages.
A table comes with the first page of its slot and goes with the last one; the usage counter of its
frame counts the pages that are mapped through it.  The recursive slot is not for mappings.
Counters and releases go by the table that a slot links, entries are edited where the view shows
them. -/

namespace Ia32Memory

inductive MapError
  | outOfMemory
  | reservedWindow (address : VirtualAddress)
  | invalidRange (start stop : VirtualAddress)
  deriving DecidableEq

def MapError.message : MapError → String
  | outOfMemory => "out of physical memory"
  | reservedWindow a => s!"{a.text} lies in the recursive page table window"
  | invalidRange start stop => s!"invalid range {start.text}..{stop.text}"

namespace AddressSpace

def create : Paging (Option AddressSpace) := do
  let some root ← Paging.takeFrame | return none
  Paging.clearTable root
  Paging.store root Slot.recursive (Entry.aimedAt root Entry.kernelReadWrite)
  return some (.ofRoot root)

def directory (s : AddressSpace) : Paging PhysicalPage := do
  s.directoryIn (← get).memory

def table? (s : AddressSpace) (directory : PhysicalPage) (slot : Slot) :
    Paging (Option LinkedTable) := do
  s.tableIn (← get).memory directory slot

/-- Links a new table and empties it.  Whatever its pages are allowed, the link itself is
writable. -/
def installTable (s : AddressSpace) (directory : PhysicalPage) (slot : Slot) (flags : Entry) :
    Paging (Option LinkedTable) := do
  let some frame ← Paging.takeFrame | return none
  Paging.store directory slot (Entry.aimedAt frame (flags.flagsOnly.withWritable true))
  Paging.invalidate slot.window
  let shown ← s.view.frameIn (← get).memory slot.window frame
  Paging.clearTable shown
  Paging.say .debug s!"page table {frame.debugText} installed for {slot.base.text}"
  return some ⟨frame, shown⟩

def mapPage (s : AddressSpace) (page : VirtualPage) (frame : PhysicalPage) (flags : Entry) :
    Paging (Except MapError Unit) := do
  let slot := page.directorySlot
  if slot.IsRecursive then return .error (.reservedWindow page.base)
  let directory ← s.directory
  let linked ← s.table? directory slot
  let some table ← if linked.isSome then pure linked else s.installTable directory slot flags
    | return .error .outOfMemory
  let old ← Paging.entry table.shown page.tableSlot
  if let some (there, _) := old.mapped? then throw (.alreadyMapped page there)
  Paging.store table.shown page.tableSlot (Entry.aimedAt frame flags)
  Paging.invalidate page
  let _ ← Paging.addUser table.frame
  return .ok ()

def requireTable (s : AddressSpace) (directory : PhysicalPage) (action : PageAction)
    (page : VirtualPage) : Paging LinkedTable := do
  let some table ← s.table? directory page.directorySlot | throw (.noPageTable action page)
  return table

def removeTable (directory : PhysicalPage) (slot : Slot) (frame : PhysicalPage) :
    Paging Unit := do
  Paging.store directory slot 0
  Paging.releaseFrame frame
  Paging.invalidate slot.window
  Paging.say .debug s!"page table {frame.debugText} for {slot.base.text} released"

def unmapPage (s : AddressSpace) (page : VirtualPage) : Paging PhysicalPage := do
  let slot := page.directorySlot
  if slot.IsRecursive then throw (.reservedPage page)
  let directory ← s.directory
  let table ← s.requireTable directory .unmap page
  let old ← Paging.entry table.shown page.tableSlot
  let some (frame, _) := old.mapped? | throw (.notMapped .unmap page)
  Paging.store table.shown page.tableSlot 0
  Paging.invalidate page
  if (← Paging.removeUser table.frame) = 0 then removeTable directory slot table.frame
  return frame

def setWritable (s : AddressSpace) (page : VirtualPage) (writable : Bool) : Paging Unit := do
  let table ← s.requireTable (← s.directory) .setWritable page
  let old ← Paging.entry table.shown page.tableSlot
  unless old.present do throw (.notMapped .setWritable page)
  Paging.store table.shown page.tableSlot (old.withWritable writable)
  Paging.invalidate page

def entry? (s : AddressSpace) (page : VirtualPage) : Paging (Option Entry) := do
  s.entryIn (← get).memory page

def walk (s : AddressSpace) (address : VirtualAddress) : Paging Walk := do
  s.walkIn (← get).memory address

def query (s : AddressSpace) (address : VirtualAddress) : Paging (Option PhysicalAddress) := do
  s.queryIn (← get).memory address

end AddressSpace
end Ia32Memory
