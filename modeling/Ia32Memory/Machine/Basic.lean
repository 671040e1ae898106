import Ia32Memory.Frame.Allocator
import Ia32Memory.Log
import Ia32Memory.Machine.Memory

/-! The machine that paging code works on: an allocator, physical memory, and a record of what was
done.  Every store to a directory or table is recorded beside the invalidations, so the record
tells in which order the processor could have seen them.  A quota, when there is one, bounds how
many frames may still be asked for; a request beyond it is refused without a word. -/

namespace Ia32Memory

inductive Event
  | stored (table : PhysicalPage) (slot : Slot) (entry : Entry)
  | cleared (table : PhysicalPage)
  | invalidated (page : VirtualPage)
  /-- A mapped page was filled with zeros, its table entry being `leaf` at that moment. -/
  | zeroed (page : VirtualPage) (frame : PhysicalPage) (leaf : Option Entry)
  | pagingEnabled (root : PhysicalPage) (first : Entry)
  | segmentsFlattened
  deriving DecidableEq

structure Record where
  events : Array Event
  log : Array LogLine

namespace Record

def empty : Record := ⟨#[], #[]⟩

def say (r : Record) (level : Level) (message : String) : Record :=
  { r with log := r.log.push ⟨level, message⟩ }

def note (r : Record) (e : Event) : Record :=
  { r with events := r.events.push e }

end Record

structure Machine where
  frames : FrameAllocator
  quota : Option Nat
  memory : PhysicalMemory
  record : Record

/-- A run of paging code; what it has done before a fault stays done. -/
abbrev Paging := EStateM Fault Machine

namespace Paging

def say (level : Level) (message : String) : Paging Unit :=
  modify fun m => { m with record := m.record.say level message }

def note (e : Event) : Paging Unit :=
  modify fun m => { m with record := m.record.note e }

def onFrames {α : Type} (step : FrameAllocator.Step α) : Paging α := fun m =>
  match m with
  | ⟨frames, quota, memory, record⟩ =>
    match step frames with
    | .ok a frames => .ok a ⟨frames, quota, memory, record⟩
    | .error f frames => .error f ⟨frames, quota, memory, record⟩

def withinQuota : Paging Bool := do
  match (← get).quota with
  | none => return true
  | some 0 => return false
  | some (n + 1) =>
    modify fun m => { m with quota := some n }
    return true

def takeUnmetered : Paging (Option PhysicalPage) := do
  match ← onFrames FrameAllocator.take with
  | .frame p => return some p
  | .exhausted =>
    say .warn "out of physical memory"
    return none
  | .miscounted free =>
    say .warn s!"out of physical memory: {free} frames counted free"
    return none

def takeFrame : Paging (Option PhysicalPage) := do
  if ← withinQuota then takeUnmetered else return none

def takeMany : Nat → Paging (List PhysicalPage × Nat)
  | 0 => return ([], 0)
  | n + 1 => do
    let taken ← takeUnmetered
    let (frames, refused) ← takeMany n
    match taken with
    | some p => return (p :: frames, refused)
    | none => return (frames, refused + 1)

def releaseFrame (p : PhysicalPage) : Paging Unit :=
  onFrames (FrameAllocator.release p)

def addUser (p : PhysicalPage) : Paging Nat :=
  onFrames (FrameAllocator.addUser p)

def removeUser (p : PhysicalPage) : Paging Nat :=
  onFrames (FrameAllocator.removeUser p)

def dumpMaps : Paging Unit := do
  say .info (← get).frames.superframeMapText
  say .info (← get).frames.frameMapText
  say .info (← (← get).frames.memoryText)

def entry (table : PhysicalPage) (slot : Slot) : Paging Entry := do
  return (← get).memory.word table slot

def store (table : PhysicalPage) (slot : Slot) (e : Entry) : Paging Unit := do
  modify fun m => { m with memory := m.memory.put table slot e }
  note (.stored table slot e)

def clearTable (table : PhysicalPage) : Paging Unit := do
  modify fun m => { m with memory := m.memory.clear table }
  note (.cleared table)

def invalidate (page : VirtualPage) : Paging Unit :=
  note (.invalidated page)

end Paging
end Ia32Memory
