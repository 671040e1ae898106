import Ia32Memory.Address.Basic
import Ia32Memory.Frame.Stats

/-! The ways in which a run is stopped.
A fault is no answer: the operation that meets it goes no further.  Errors that a caller is told
of have types of their own beside the operations that return them. -/

namespace Ia32Memory

inductive PageAction
  | unmap
  | setWritable
  deriving DecidableEq

def PageAction.name : PageAction → String
  | .unmap => "unmap_page"
  | .setWritable => "set_writable"

inductive Fault
  /-- A number does not fit its width, or would be negative. -/
  | overflow
  | outOfBounds
  | maskTooLong
  | unalignedPage
  | offsetTooLarge
  | indexTooLarge
  | valueTooLarge (max : Nat)
  | unalignedDirectory
  | largePage
  | mapTooSmall (words bits : Nat)
  | bitOutOfRange (bit : Nat)
  | rangeOutOfBounds
  | unalignedWindow (remainder : Nat)
  | unalignedRegion
  | regionNotFree (start stop : PhysicalAddress)
  | regionNotAllocated (start stop : PhysicalAddress)
  | regionSpansHole (start stop : PhysicalAddress) (counted length : Nat)
  | frameInHole (frame : PhysicalPage)
  | frameBeyondEnd (frame : PhysicalPage)
  | frameIndexOutOfRange (index : Nat)
  | emptySuperframe (superframe : Nat)
  | alreadyFree (frame : PhysicalPage)
  | usageOverflow (frame : PhysicalPage)
  | usageUnderflow (frame : PhysicalPage)
  | alreadyMapped (page : VirtualPage) (frame : PhysicalPage)
  | reservedPage (page : VirtualPage)
  | noPageTable (action : PageAction) (page : VirtualPage)
  | notMapped (action : PageAction) (page : VirtualPage)
  | unalignedRange (start stop : VirtualAddress)
  | unalignedTarget (target : PhysicalAddress)
  | framesReady
  | framesMissing
  | pagingReady
  | pagingBeforeFrames
  | spaceMissing
  | releaseBeforeFrames
  | pageFault (address : VirtualAddress) (explanation : String)
  | scratchNotZero (found : Nat)
  | scratchLeaked (after before : Option Stats)
  | unmappedAccess (address : VirtualAddress)
  deriving DecidableEq

namespace Fault

def unequal (note left right : String) : String :=
  "assertion `left == right` failed" ++ note ++ "\n  left: " ++ left ++ "\n right: " ++ right

def message : Fault → String
  | overflow => "arithmetic overflow"
  | outOfBounds => "index out of bounds"
  | maskTooLong => "assertion failed: from + len <= Word::BITS"
  | unalignedPage => "unaligned page address"
  | offsetTooLarge => "offset must be < page size"
  | indexTooLarge => "assertion failed: (v as usize) < PAGE_ENTRIES"
  | valueTooLarge max => s!"value out of bounds [0, {max}]"
  | unalignedDirectory => "page directory base must be 4K-aligned"
  | largePage => "4 MiB pages are not used"
  | mapTooSmall words bits => s!"bitmap storage too small: {words} words for {bits} bits"
  | bitOutOfRange bit => s!"bit {bit} out of range"
  | rangeOutOfBounds => "range out of bounds"
  | unalignedWindow remainder =>
    unequal ": window start must be word aligned" (toString remainder) "0"
  | unalignedRegion => "unaligned region"
  | regionNotFree start stop =>
    s!"alloc_region: {start.text}..{stop.text} is not entirely free"
  | regionNotAllocated start stop =>
    s!"free_region: {start.text}..{stop.text} is not entirely allocated"
  | regionSpansHole start stop counted length =>
    unequal s!": region {start.text}..{stop.text} spans the lower memory hole"
      (toString counted) (toString length)
  | frameInHole frame => s!"{frame.debugText} lies in the lower memory hole"
  | frameBeyondEnd frame => s!"{frame.debugText} is beyond the end of memory"
  | frameIndexOutOfRange index => s!"frame index {index} out of range"
  | emptySuperframe superframe =>
    s!"alloc_frame: superframe {superframe} is marked free but holds no free frame"
  | alreadyFree frame => s!"free_frame: {frame.debugText} already freed"
  | usageOverflow frame => s!"inc_usage: usage counter of {frame.debugText} overflowed"
  | usageUnderflow frame => s!"dec_usage: usage counter of {frame.debugText} is already zero"
  | alreadyMapped page frame =>
    s!"map_page: {page.debugText} already mapped to {frame.debugText}"
  | reservedPage page => s!"unmap_page: {page.debugText} is inside the recursive window"
  | noPageTable action page => s!"{action.name}: no page table for {page.debugText}"
  | notMapped action page => s!"{action.name}: {page.debugText} is not mapped"
  | unalignedRange start stop => s!"unaligned range {start.text}..{stop.text}"
  | unalignedTarget target => s!"unaligned {target.text}"
  | framesReady => "init_frames: frame allocator already initialized"
  | framesMissing => "frame allocator used before init_frames"
  | pagingReady => "init_paging: paging already enabled"
  | pagingBeforeFrames => "init_paging: called before init_frames"
  | spaceMissing => "address space used before init_paging"
  | releaseBeforeFrames => "release_init_sections: called before init_frames"
  | pageFault address explanation => s!"page fault at {address.text}: {explanation}"
  | scratchNotZero found => unequal "" (toString found) "0"
  | scratchLeaked after before =>
    unequal ": scratch mapping leaked frames" (Stats.optionText after) (Stats.optionText before)
  | unmappedAccess address => s!"access to unmapped address {address.text}"

end Fault

/-- A number of the given width, or the fault that it does not fit. -/
def fit (bits n : Nat) : Except Fault Nat :=
  if n < 1 <<< bits then .ok n else .error .overflow

def minus (a b : Nat) : Except Fault Nat :=
  if b ≤ a then .ok (a - b) else .error .overflow

def orFault {α : Type} (fault : Fault) : Option α → Except Fault α
  | some a => .ok a
  | none => .error fault

instance {σ : Type} : MonadLift (Except Fault) (EStateM Fault σ) where
  monadLift
    | .ok a => pure a
    | .error f => throw f

theorem fit_eq_ok {bits n m : Nat} : fit bits n = .ok m ↔ n < 1 <<< bits ∧ n = m := by
  unfold fit
  split <;> simp <;> omega

theorem minus_eq_ok {a b c : Nat} : minus a b = .ok c ↔ b ≤ a ∧ a - b = c := by
  unfold minus
  split <;> simp <;> omega

end Ia32Memory
