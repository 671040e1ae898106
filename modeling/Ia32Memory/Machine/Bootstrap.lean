import Ia32Memory.Machine.Page

/-! Switching paging on.
The boot directory maps the kernel's frames at their link addresses, its code read-only.  While the
switch is made the processor still runs at addresses of slot 0, so that slot shows the kernel's
table until the segments are flat. -/

namespace Ia32Memory

inductive BootstrapError
  | outOfMemory
  | kernelTooLarge (frames : Nat)
  | map (cause : MapError)
  deriving DecidableEq

def BootstrapError.message : BootstrapError → String
  | outOfMemory => "out of physical memory for the boot page directory"
  | kernelTooLarge frames => s!"kernel of {frames} frames does not fit the boot page table"
  | map cause => s!"mapping the kernel failed: {cause.message}"

namespace AddressSpace

def mapImage (s : AddressSpace) (page : VirtualPage) (frame : PhysicalPage) (frames : Nat) :
    List Nat → Paging (Except BootstrapError Unit)
  | [] => return .ok ()
  | n :: rest => do
    let some page' := page.add? n | return .error (.kernelTooLarge frames)
    let some frame' := frame.add? n | return .error (.kernelTooLarge frames)
    match ← s.mapPage page' frame' Entry.kernelReadWrite with
    | .error e => return .error (.map e)
    | .ok () => s.mapImage page frame frames rest

def writeProtect (s : AddressSpace) (part : Section) : Paging Unit :=
  (List.range part.pages).forM fun n =>
    match part.start.page.add? n with
    | some page => s.setWritable page false
    | none => return

def enablePaging (s : AddressSpace) : Paging Unit := do
  Paging.note (.pagingEnabled s.root (← Paging.entry s.root .first))

/-- Builds the boot directory for an image of `frames` frames and turns paging on.  An error
leaves the frames taken so far to nobody. -/
def bootstrap (image : Image) (frames : Nat) : Paging (Except BootstrapError AddressSpace) := do
  let slots ← fit 64 (image.virtual.page.tableSlot.val + frames)
  if AddressMap.entries < slots then return .error (.kernelTooLarge frames)
  let some s ← create | return .error .outOfMemory
  match ← s.mapImage image.virtual.page image.physical.page frames (List.range frames) with
  | .error e => return .error e
  | .ok () =>
    s.writeProtect image.text
    s.writeProtect image.initText
    let slot := image.virtual.page.directorySlot
    Paging.store s.root .first (← Paging.entry s.root slot)
    Paging.say .debug <| s!"boot directory {s.root.debugText}: {frames} kernel pages, " ++
      s!"slot 0 aliases slot {slot.val}"
    s.enablePaging
    Paging.note .segmentsFlattened
    Paging.store s.root .first 0
    Paging.invalidate .first
    Paging.say .info s!"paging enabled, page directory at {s.root.base.text}"
    return .ok s

end AddressSpace
end Ia32Memory
