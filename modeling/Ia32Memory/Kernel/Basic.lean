import Ia32Memory.Lock.Critical
import Ia32Memory.Machine.Bootstrap
import Ia32Memory.Machine.FaultReport
import Ia32Memory.Machine.Range

/-! The kernel's shared state and the calls on it.
The active directory and the memory state have a lock each.  Calls on frames hold the memory lock;
calls on mappings hold the root lock and, inside it, the memory lock.  Interrupts are masked around
each of them. -/

namespace Ia32Memory

inductive Lock
  | root
  | memory
  deriving DecidableEq

structure KernelMemory where
  frames : FrameAllocator
  image : Image

/-- The active directory may be named before paging is on; until then it has no effect. -/
structure Kernel where
  root : Option PhysicalPage
  paging : Bool
  owned : Option KernelMemory
  ramBytes : Nat
  ram : PhysicalMemory
  record : Record

namespace Kernel

abbrev Step := EStateM Fault Kernel

abbrev Call := Critical Lock Kernel Fault

def fresh (ramBytes : Nat) (background : Word) : Kernel :=
  ⟨none, false, none, ramBytes, .fresh background, .empty⟩

/-- A run of paging code on the kernel's allocator and memory. -/
def onMachine {α : Type} (run : Paging α) : Step α := fun k =>
  match k with
  | ⟨root, paging, some ⟨frames, image⟩, ramBytes, ram, record⟩ =>
    match run ⟨frames, none, ram, record⟩ with
    | .ok a m => .ok a ⟨root, paging, some ⟨m.frames, image⟩, ramBytes, m.memory, m.record⟩
    | .error f m =>
      .error f ⟨root, paging, some ⟨m.frames, image⟩, ramBytes, m.memory, m.record⟩
  | k => .error .framesMissing k

def say (level : Level) (message : String) : Step Unit :=
  modify fun k => { k with record := k.record.say level message }

def withFrames {α : Type} (run : Paging α) : Call α :=
  .maskedLocked .memory (.touch [.memory] (onMachine run))

def processor (k : Kernel) : Processor :=
  ⟨k.ramBytes, if k.paging then k.root else none⟩

def spaceUnder (k : Kernel) (root : PhysicalPage) : AddressSpace :=
  ⟨root, .virtual k.processor⟩

def requireSpace : Step AddressSpace := do
  let k ← get
  let some root := k.root | throw .spaceMissing
  return k.spaceUnder root

def withSpace {α : Type} (run : AddressSpace → Paging α) : Call α :=
  .maskedLocked .root do
    let space ← .touch [.root] requireSpace
    .locked .memory (.touch [.root, .memory] (onMachine (run space)))

structure WordRange where
  start : PhysicalAddress
  count : Nat

def WordRange.load (r : WordRange) (ram : PhysicalMemory) : Words :=
  (Array.range r.count).map fun i => ram.load (Address.truncate (r.start.toNat + 4 * i))

/-- The words behind the image that an allocator for this memory needs. -/
def bootStorage (memory : BootMemory) (image : Image) : Except Fault WordRange := do
  let count ← MapLayout.storageWords memory.totalFrames
  let stop ← image.virtualStop
  return ⟨AddressMap.toPhysical stop.toNat, count⟩

/-- The storage is looked at only when no allocator is set up yet. -/
def setupFrames (memory : BootMemory) (image : Image) (storage : WordRange) :
    Step (Except FrameSetupError Stats) := do
  if (← get).owned.isSome then throw .framesReady
  match ← FrameAllocator.setup memory image (storage.load (← get).ram) with
  | .error e => return .error e
  | .ok frames =>
    say .info frames.setupText
    say .info (← frames.memoryText)
    let stats := frames.stats
    modify fun k => { k with owned := some ⟨frames, image⟩ }
    return .ok stats

def initFrames (memory : BootMemory) (image : Image) (storage : WordRange) :
    Call (Except FrameSetupError Stats) :=
  .maskedLocked .memory (.touch [.memory] (setupFrames memory image storage))

def image : Call (Option Image) :=
  .maskedLocked .memory (.touch [.memory] do return (← get).owned.map (·.image))

def stats : Call (Option Stats) :=
  .maskedLocked .memory (.touch [.memory] do return (← get).owned.map (·.frames.stats))

def takeFrame : Call (Option PhysicalPage) :=
  withFrames Paging.takeFrame

def releaseFrame (frame : PhysicalPage) : Call Unit :=
  withFrames (Paging.releaseFrame frame)

def takeRegion (start stop : PhysicalAddress) : Call Unit :=
  withFrames (Paging.onFrames (FrameAllocator.takeRegion start stop))

def releaseRegion (start stop : PhysicalAddress) : Call Unit :=
  withFrames (Paging.onFrames (FrameAllocator.releaseRegion start stop))

def addUser (frame : PhysicalPage) : Call Nat :=
  withFrames (Paging.addUser frame)

def removeUser (frame : PhysicalPage) : Call Nat :=
  withFrames (Paging.removeUser frame)

def dumpMaps : Call Unit :=
  withFrames Paging.dumpMaps

def initPaging : Call (Except BootstrapError PhysicalPage) :=
  .maskedLocked .root do
    .touch [.root] do if (← get).root.isSome then throw .pagingReady
    let built ← .locked .memory <| .touch [.root, .memory] do
      let some owned := (← get).owned | throw .pagingBeforeFrames
      onMachine (AddressSpace.bootstrap owned.image owned.frames.stats.kernel)
    match built with
    | .error e => return .error e
    | .ok space =>
      .touch [.root] (modify fun k => { k with root := some space.root, paging := true })
      return .ok space.root

def mapPage (page : VirtualPage) (frame : PhysicalPage) (flags : Entry) :
    Call (Except MapError Unit) :=
  withSpace (·.mapPage page frame flags)

def unmapPage (page : VirtualPage) : Call PhysicalPage :=
  withSpace (·.unmapPage page)

def allocPage (page : VirtualPage) (flags : Entry) : Call (Except MapError PhysicalPage) :=
  withSpace (·.allocPage page flags)

def freePage (page : VirtualPage) : Call Unit :=
  withSpace (·.freePage page)

def mapRange (start stop : VirtualAddress) (flags : Entry) : Call (Except MapError Unit) :=
  withSpace (·.mapRange start stop flags)

def unmapRange (start stop : VirtualAddress) : Call (Except MapError Unit) :=
  withSpace (·.unmapRange start stop)

def mapDirect (start stop : VirtualAddress) (target : PhysicalAddress) (flags : Entry) :
    Call (Except MapError Unit) :=
  withSpace (·.mapDirect start stop target flags)

def unmapDirect (start stop : VirtualAddress) : Call (Except MapError Unit) :=
  withSpace (·.unmapDirect start stop)

def query (address : VirtualAddress) : Call (Option PhysicalAddress) :=
  withSpace (·.query address)

def releaseInit : Call (Except MapError Nat) := do
  let some image ← image | .touch [] (throw .releaseBeforeFrames)
  let stop ← .touch [] image.init.pageStop
  withSpace (·.releaseRange image.init.start stop)

def currentRoot : Call (Option PhysicalPage) :=
  .maskedLocked .root (.touch [.root] do return (← get).root)

def switchSpace (root : PhysicalPage) : Call Unit :=
  .maskedLocked .root (.touch [.root] (modify fun k => { k with root := some root }))

end Kernel
end Ia32Memory
