import Ia32Memory.Address.Checked
import Ia32Memory.Boot.AddressMap

/-! The kernel image: where it lies, how large it is and which of its parts are code. -/

namespace Ia32Memory

def framesFor (bytes : Nat) : Nat := (bytes + 4095) / 4096

structure Section where
  start : VirtualAddress
  size : Nat
  deriving DecidableEq

namespace Section

def empty : Section := ⟨⟨AddressMap.kernelOffset, by decide⟩, 0⟩

def pages (s : Section) : Nat := framesFor s.size

def stop (s : Section) : Except Fault VirtualAddress := s.start.add s.size

def pageStop (s : Section) : Except Fault VirtualAddress := do
  let bytes ← fit 32 (s.pages * 4096)
  s.start.add bytes

end Section

structure Image where
  physical : PhysicalAddress
  virtual : VirtualAddress
  size : Nat
  text : Section
  initText : Section
  init : Section
  deriving DecidableEq

namespace Image

def ofFrames (physical : PhysicalAddress) (virtual : VirtualAddress) (frames : Nat) :
    Except Fault Image := do
  let size ← fit 32 (frames * 4096)
  return ⟨physical, virtual, size, .empty, .empty, .empty⟩

def frames (i : Image) : Nat := framesFor i.size

def virtualStop (i : Image) : Except Fault VirtualAddress := i.virtual.add i.size

def toPhysical (i : Image) (a : VirtualAddress) : Except Fault PhysicalAddress := do
  let distance ← minus a.toNat i.virtual.toNat
  i.physical.add distance

/-- The section between two addresses of 64 bits, of which the low 32 count. -/
def sectionBetween (start stop : Nat) : Except Fault Section := do
  let size ← minus stop start
  return ⟨Address.truncate start, size % 0x100000000⟩

def between (start stop : Nat) (text initText init : Nat × Nat) : Except Fault Image := do
  let size ← minus stop start
  let text ← sectionBetween text.1 text.2
  let initText ← sectionBetween initText.1 initText.2
  let init ← sectionBetween init.1 init.2
  let size ← fit 32 (framesFor (size % 0x100000000) * 4096)
  let virtual : VirtualAddress := Address.truncate start
  return ⟨AddressMap.toPhysical virtual.toNat, virtual, size, text, initText, init⟩

end Image
end Ia32Memory
