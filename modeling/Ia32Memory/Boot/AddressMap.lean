import Ia32Memory.Address.Basic

/-! Where things lie in memory.
The kernel is linked at `kernelOffset` above its physical place.  Until paging is on, segments
whose base is `bootSegmentBase` make link addresses resolve, for the two add up to 4 GiB. -/

namespace Ia32Memory.AddressMap

def kernelOffset : Nat := 0xC0000000

def bootSegmentBase : Nat := 0x40000000

def kernelPhysical : Nat := 0x00100000

def kernelVirtual : Nat := kernelPhysical + kernelOffset

def upperMemoryStart : Nat := 0x00100000

def entries : Nat := 1024

def recursiveSlot : Nat := entries - 1

def tableWindow : Nat := 0xFFC00000

def directoryWindow : Nat := 0xFFFFF000

def superframe : Nat := 1024

def kernelStack : Nat := 16 * 1024

/-- The four pages from here on are free for a trial mapping. -/
def scratchStart : VirtualAddress := ⟨0xD0000000, by decide⟩

def scratchPages : Nat := 4

def toPhysical (virtual : Nat) : PhysicalAddress :=
  Address.truncate (virtual + 0x100000000 - kernelOffset)

def toVirtual (physical : Nat) : VirtualAddress :=
  Address.truncate (physical + kernelOffset)

end Ia32Memory.AddressMap
