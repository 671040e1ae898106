import Ia32Memory.Bits.Bitmap
import Ia32Memory.Boot.Memory
import Ia32Memory.Frame.Counters
import Ia32Memory.Frame.MapLayout
import Ia32Memory.Frame.Numbering

/-! The allocator of physical frames.
A bit for each frame says whether it is free, and a bit for each superframe of 1024 frames says
whether one of them is.  The lowest free frame is handed out.  A counter of users goes with each
frame; it takes no part in allocation.  The maps are carved out of storage that the caller gives,
in the order frames, superframes, counters; words behind them are spare and stay as they were. -/

namespace Ia32Memory

structure FrameAllocator where
  frames : Bitmap
  superframes : Bitmap
  usage : Counters
  spare : Words
  stats : Stats

inductive FrameSetupError
  | storageTooSmall (provided required : Nat)
  | noMemory
  | kernelOutsideUpperMemory (start stop : PhysicalAddress)
  deriving DecidableEq

def FrameSetupError.message : FrameSetupError → String
  | storageTooSmall provided required =>
    s!"allocator storage holds {provided} words, {required} required"
  | noMemory => "boot loader reported no memory"
  | kernelOutsideUpperMemory start stop =>
    s!"kernel reservation {start.text}..{stop.text} is outside upper memory"

/-- The answer to a request for a frame. -/
inductive Taken
  | frame (frame : PhysicalPage)
  | exhausted
  /-- Frames are counted free, but no superframe has one. -/
  | miscounted (free : Nat)
  deriving DecidableEq

namespace FrameAllocator

/-- A step of an allocator; what it has done before a fault stays done. -/
abbrev Step := EStateM Fault FrameAllocator

def storage (a : FrameAllocator) : Words :=
  a.frames.words ++ a.superframes.words ++ a.usage ++ a.spare

def setStats (change : Stats → Except Fault Stats) : Step Unit := do
  let stats ← change (← get).stats
  modify fun a => { a with stats }

def superframeFull (superframe : Nat) : Step Bool := do
  let a ← get
  let first := superframe * AddressMap.superframe
  let count ← minus a.stats.total first
  a.frames.allClear first (min AddressMap.superframe count)

def clearFullSuperframe (superframe : Nat) : Step Unit := do
  if ← superframeFull superframe then
    (← get).superframes.requireBit superframe
    modify fun a => { a with superframes := a.superframes.clearBit superframe }

def take : Step Taken := do
  let a ← get
  if a.stats.free = 0 then return .exhausted
  let some superframe := a.superframes.findFirstSet | return .miscounted a.stats.free
  let some index ← a.frames.findFirstSetIn (superframe * AddressMap.superframe)
    AddressMap.superframe | throw (.emptySuperframe superframe)
  a.frames.requireBit index
  modify fun a => { a with frames := a.frames.clearBit index }
  clearFullSuperframe superframe
  setStats (·.take 1)
  return .frame (← (← get).stats.frameAt index)

def release (frame : PhysicalPage) : Step Unit := do
  let a ← get
  let index ← a.stats.frameIndex frame
  if ← a.frames.get index then throw (.alreadyFree frame)
  a.superframes.requireBit (index / AddressMap.superframe)
  modify fun a => { a with
    frames := a.frames.setBit index
    superframes := a.superframes.setBit (index / AddressMap.superframe) }
  setStats (·.release 1)

/-- All frames of a region, which have to be free, become used.  Superframes wholly inside it are
full then; those at its edges are looked at. -/
def takeRegion (start stop : PhysicalAddress) : Step Unit := do
  let a ← get
  let some (first, count) ← a.stats.region start stop | return
  unless ← a.frames.allSet first count do throw (.regionNotFree start stop)
  a.frames.requireRange first count
  modify fun a => { a with frames := a.frames.clearRange first count }
  let last := first + count
  let covered := MapLayout.superframesFor first
  let behind := last / AddressMap.superframe
  if covered < behind then
    (← get).superframes.requireRange covered (behind - covered)
    modify fun a => { a with superframes := a.superframes.clearRange covered (behind - covered) }
  clearFullSuperframe (first / AddressMap.superframe)
  clearFullSuperframe ((last - 1) / AddressMap.superframe)
  setStats (·.take count)

def releaseRegion (start stop : PhysicalAddress) : Step Unit := do
  let a ← get
  let some (first, count) ← a.stats.region start stop | return
  unless ← a.frames.allClear first count do throw (.regionNotAllocated start stop)
  a.frames.requireRange first count
  modify fun a => { a with frames := a.frames.setRange first count }
  let touched := first / AddressMap.superframe
  let behind := MapLayout.superframesFor (first + count)
  (← get).superframes.requireRange touched (behind - touched)
  modify fun a => { a with superframes := a.superframes.setRange touched (behind - touched) }
  setStats (·.release count)

def frameIndex (frame : PhysicalPage) : Step Nat := do
  (← get).stats.frameIndex frame

def frameAt (index : Nat) : Step PhysicalPage := do
  (← get).stats.frameAt index

def isFree (frame : PhysicalPage) : Step Bool := do
  let a ← get
  let index ← a.stats.frameIndex frame
  a.frames.get index

def usageOf (frame : PhysicalPage) : Step Nat := do
  let a ← get
  let index ← a.stats.frameIndex frame
  if index / 2 < a.usage.size then return a.usage.count index else throw .outOfBounds

def setUsage (frame : PhysicalPage) (n : Nat) : Step Unit := do
  let index ← frameIndex frame
  modify fun a => { a with usage := a.usage.put index n }

def addUser (frame : PhysicalPage) : Step Nat := do
  let n ← usageOf frame
  if n = Counters.max then throw (.usageOverflow frame)
  setUsage frame (n + 1)
  return n + 1

def removeUser (frame : PhysicalPage) : Step Nat := do
  let n ← usageOf frame
  if n = 0 then throw (.usageUnderflow frame)
  setUsage frame (n - 1)
  return n - 1

/-- The maps in the storage that is given, with all frames free.  The words that they take are
zeroed first; the words behind them are spare. -/
def carve (memory : BootMemory) (kernel : Nat) (storage : Words) : Except Fault FrameAllocator := do
  let total := memory.totalFrames
  let layout := MapLayout.forFrames total
  let required ← layout.words
  let zeroed ← storage.fillChecked 0 0 required
  let behindFrames := layout.frameWords
  let behindSuperframes := behindFrames + layout.superframeWords
  let superframeCount := MapLayout.superframesFor total
  let frames ← Bitmap.ofWords (zeroed.extract 0 behindFrames) total
  let superframes ← Bitmap.ofWords (zeroed.extract behindFrames behindSuperframes) superframeCount
  return {
    frames := ← frames.setRangeChecked 0 total
    superframes := ← superframes.setRangeChecked 0 superframeCount
    usage := zeroed.extract behindSuperframes required
    spare := zeroed.extract required zeroed.size
    stats := {
      total, free := total, used := 0, kernel
      lower := memory.lowerFrames, upper := memory.upperFrames } }

/-- The end of a number of frames, counted round at 4 GiB. -/
def endOfFrames (start : PhysicalAddress) (frames : Nat) : PhysicalAddress :=
  Address.truncate (start.toNat + frames * 4096)

/-- An allocator over the memory that was reported, in the storage that is given.  The image and
the frames behind it that hold the maps are reserved from the start. -/
def setup (memory : BootMemory) (image : Image) (storage : Words) :
    Except Fault (Except FrameSetupError FrameAllocator) := do
  let total := memory.totalFrames
  if total = 0 then return .error .noMemory
  let layout := MapLayout.forFrames total
  let required ← layout.words
  if storage.size < required then
    return .error (.storageTooSmall storage.size required)
  let own ← layout.frames
  let kernel ← fit 64 (image.frames + own)
  let start := image.physical
  let stop := endOfFrames start kernel
  let upperStop := AddressMap.upperMemoryStart + memory.upperFrames * 4096
  if start.toNat < AddressMap.upperMemoryStart ∨ upperStop < stop.toNat ∨ stop < start then
    return .error (.kernelOutsideUpperMemory start stop)
  let blank ← carve memory kernel storage
  match takeRegion start stop blank with
  | .ok _ a => return .ok a
  | .error f _ => throw f

def setupText (a : FrameAllocator) : String :=
  let words := a.frames.words.size + a.superframes.words.size + a.usage.size
  s!"frame allocator: {a.stats.total} frames, {words} words of maps, " ++
    s!"{a.stats.kernel} kernel frames"

def memoryText (a : FrameAllocator) : Except Fault String := do
  let report ← orFault .overflow a.stats.report?
  return "memory: " ++ report

def superframeMapText (a : FrameAllocator) : String :=
  "superframe map:\n" ++ a.superframes.drawing

def frameMapText (a : FrameAllocator) : String :=
  "frame map:\n" ++ a.frames.drawing

def debugText (a : FrameAllocator) : String :=
  "FrameAllocator \x7b stats: " ++ a.stats.debugText ++ ", .. \x7d"

end FrameAllocator
end Ia32Memory
