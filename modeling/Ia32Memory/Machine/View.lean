import Ia32Memory.Machine.Translation

/-! How paging code gets at what it edits.
Where physical memory lies open, a directory, table or page is found in its frame.  Code that runs
under the processor's own translation has to name a virtual page instead: a window of the recursive
slot for a directory or table, and a mapped page by itself.  Under a directory whose last slot links
it both views show the same; under any other the processor decides what is shown.  A view does not
look at write protection: a link to a table is always made writable. -/

namespace Ia32Memory

inductive View
  | physical
  | virtual (processor : Processor)
  deriving DecidableEq

/-- The frame that is shown at a page where `frame` is looked for. -/
def View.frameIn (v : View) (m : PhysicalMemory) (page : VirtualPage) (frame : PhysicalPage) :
    Except Fault PhysicalPage :=
  match v with
  | physical => .ok frame
  | .virtual processor =>
    (orFault (.unmappedAccess page.base) (processor.translate m page.base)).map (·.address.page)

theorem View.frameIn_window {c : Processor} {m : PhysicalMemory} {root frame : PhysicalPage}
    {slot : Slot} (active : c.directory = some root) (rootHeld : c.Reaches root.base)
    (loopPresent : Entry.present (m.word root Slot.recursive))
    (loop : Entry.frame (m.word root Slot.recursive) = root)
    (linkPresent : Entry.present (m.word root slot))
    (link : Entry.frame (m.word root slot) = frame) (frameHeld : c.Reaches frame.base) :
    (View.virtual c).frameIn m slot.window frame = .ok frame := by
  have start : frame.join slot.window.base.offset = frame.base := by
    ext
    simp [Page.base, Page.join, Address.offset]
  have walk : c.walk? m root slot.window.base = some ⟨frame.base,
      Entry.writable (m.word root Slot.recursive) && Entry.writable (m.word root slot),
      Entry.userAccess (m.word root Slot.recursive) && Entry.userAccess (m.word root slot)⟩ := by
    simp [Processor.walk?, Processor.entry?, Slot.window_eq, rootHeld, loopPresent, loop,
      linkPresent, link]
    exact start
  simp [frameIn, Processor.translate, active, walk, orFault, frameHeld, Except.map,
    Option.filter_some]

end Ia32Memory
