import Ia32Memory.Machine.Page

/-! Mappings of whole ranges, and of pages with frames of their own.
Anonymous pages get a frame from the allocator and hold zeros; direct ones lead to given frames.
A range that cannot be mapped to its end is unmapped again up to the page that failed. -/

namespace Ia32Memory.AddressSpace

def zeroPage (s : AddressSpace) (page : VirtualPage) (frame : PhysicalPage) : Paging Unit := do
  let memory := (← get).memory
  let leaf := (s.entryIn memory page).toOption.join
  let shown ← s.view.frameIn memory page frame
  modify fun m => { m with memory := m.memory.clear shown }
  Paging.note (.zeroed page frame leaf)

/-- Maps a page to a new frame.  The page is writable while it is filled, for the processor
respects write protection at every privilege. -/
def allocPage (s : AddressSpace) (page : VirtualPage) (flags : Entry) :
    Paging (Except MapError PhysicalPage) := do
  let some frame ← Paging.takeFrame | return .error .outOfMemory
  match ← s.mapPage page frame (flags.withWritable true) with
  | .error e =>
    Paging.releaseFrame frame
    return .error e
  | .ok () =>
    let _ ← Paging.addUser frame
    s.zeroPage page frame
    unless flags.writable do s.setWritable page false
    return .ok frame

def freePage (s : AddressSpace) (page : VirtualPage) : Paging Unit := do
  let frame ← s.unmapPage page
  if (← Paging.removeUser frame) = 0 then Paging.releaseFrame frame

def rangePages (start stop : VirtualAddress) : Except Fault (Except MapError (List VirtualPage)) :=
  if ¬(start.IsAligned ∧ stop.IsAligned) then .error (.unalignedRange start stop)
  else if stop < start then .ok (.error (.invalidRange start stop))
  else .ok (.ok (Page.between start.page stop.page))

/-- Maps pages in turn; at the first that fails, what was mapped is undone. -/
def mapEach (name : String) (start stop : VirtualAddress)
    (place : VirtualPage → Paging (Except MapError Unit))
    (undo : VirtualAddress → VirtualAddress → Paging (Except MapError Unit)) :
    List VirtualPage → Paging (Except MapError Unit)
  | [] => return .ok ()
  | page :: rest => do
    match ← place page with
    | .ok () => mapEach name start stop place undo rest
    | .error e =>
      Paging.say .warn <| s!"{name} {start.text}..{stop.text}: {e.message} at " ++
        s!"{page.base.text}, rolling back"
      match ← undo start page.base with
      | .error e => return .error e
      | .ok () => return .error e

def unmapRange (s : AddressSpace) (start stop : VirtualAddress) :
    Paging (Except MapError Unit) := do
  match ← rangePages start stop with
  | .error e => return .error e
  | .ok pages =>
    pages.forM s.freePage
    return .ok ()

def mapRange (s : AddressSpace) (start stop : VirtualAddress) (flags : Entry) :
    Paging (Except MapError Unit) := do
  match ← rangePages start stop with
  | .error e => return .error e
  | .ok pages =>
    let place page := do return (← s.allocPage page flags).map fun _ => ()
    mapEach "map_range" start stop place s.unmapRange pages

def unmapDirect (s : AddressSpace) (start stop : VirtualAddress) :
    Paging (Except MapError Unit) := do
  match ← rangePages start stop with
  | .error e => return .error e
  | .ok pages =>
    pages.forM fun page => do let _ ← s.unmapPage page
    return .ok ()

def mapDirect (s : AddressSpace) (start stop : VirtualAddress) (target : PhysicalAddress)
    (flags : Entry) : Paging (Except MapError Unit) := do
  match ← rangePages start stop with
  | .error e => return .error e
  | .ok pages =>
    unless target.IsAligned do throw (.unalignedTarget target)
    let place page := do
      let address ← target.add (page.base.toNat - start.toNat)
      s.mapPage page address.page flags
    mapEach "map_direct" start stop place s.unmapDirect pages

/-- Unmaps a range that was mapped to reserved frames and gives these to the allocator.  The
answer is their number. -/
def releaseRange (s : AddressSpace) (start stop : VirtualAddress) :
    Paging (Except MapError Nat) := do
  match ← rangePages start stop with
  | .error e => return .error e
  | .ok pages =>
    pages.forM fun page => do Paging.releaseFrame (← s.unmapPage page)
    Paging.say .info s!"released {start.text}..{stop.text} ({pages.length * 4} KiB)"
    return .ok pages.length

end Ia32Memory.AddressSpace
