import Ia32Memory.Boot.AddressMap
import Ia32Memory.Fault

/-! Frames counted without the hole between lower memory and 1 MiB.
Lower memory comes first, then upper memory from 1 MiB on.  A frame that is below 1 MiB and not
in lower memory lies in the hole and has no index. -/

namespace Ia32Memory

def firstUpperFrame : Nat := 256

namespace Stats

def requireIndex (s : Stats) (index : Nat) (fault : Fault) : Except Fault Nat :=
  if index < s.total then .ok index else .error fault

def frameIndex (s : Stats) (frame : PhysicalPage) : Except Fault Nat :=
  if frame.number < firstUpperFrame then
    if frame.number < s.lower then s.requireIndex frame.number (.frameBeyondEnd frame)
    else .error (.frameInHole frame)
  else s.requireIndex (frame.number - firstUpperFrame + s.lower) (.frameBeyondEnd frame)

/-- The frame at an index, its address cut to 32 bits. -/
def frameAt (s : Stats) (index : Nat) : Except Fault PhysicalPage := do
  let index ← s.requireIndex index (.frameIndexOutOfRange index)
  return Page.truncate
    (if index < s.lower then index else index - s.lower + firstUpperFrame)

/-- The first index of a region and the number of its frames; none for an empty region.  The
frames of a region have to be as many as its bytes tell, so it must not span the hole. -/
def region (s : Stats) (start stop : PhysicalAddress) : Except Fault (Option (Nat × Nat)) :=
  if ¬(start.IsAligned ∧ stop.IsAligned) then .error .unalignedRegion
  else if stop ≤ start then .ok none
  else do
    let first ← s.frameIndex start.page
    let last ← s.frameIndex (Page.truncate (stop.page.number - 1))
    let more ← minus last first
    let counted := (more + 1) * 4096
    let length := stop.toNat - start.toNat
    if counted = length then return some (first, more + 1)
    else throw (.regionSpansHole start stop counted length)

def take (s : Stats) (count : Nat) : Except Fault Stats := do
  let free ← minus s.free count
  let used ← fit 64 (s.used + count)
  return { s with free, used }

def release (s : Stats) (count : Nat) : Except Fault Stats := do
  let free ← fit 64 (s.free + count)
  let used ← minus s.used count
  return { s with free, used }

end Stats
end Ia32Memory
