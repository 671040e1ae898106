import Ia32Memory.Bits.Word

/-! The memory sizes that a boot loader reports, in KiB below and above 1 MiB. -/

namespace Ia32Memory

structure BootMemory where
  lowerKib : Nat
  upperKib : Nat
  deriving DecidableEq

namespace BootMemory

def kibFrames (kib : Nat) : Nat := kib * 1024 / 4096

def lowerFrames (m : BootMemory) : Nat := kibFrames m.lowerKib

def upperFrames (m : BootMemory) : Nat := kibFrames m.upperKib

def totalFrames (m : BootMemory) : Nat := m.lowerFrames + m.upperFrames

end BootMemory

namespace Multiboot

def loaderMagic : Nat := 0x2BADB002

/-- The words of a boot record: flags, the two sizes, and two that are of no use here. -/
def recordWords : Nat := 5

def memoryFlag : Nat := 1

def headerMagic : Nat := 0x1BADB002

def pageAlign : Nat := 1

def memoryInfo : Nat := 2

def memory? (flags lower upper : Word) : Option BootMemory :=
  if flags.getLsbD 0 then some ⟨lower.toNat, upper.toNat⟩ else none

def header (flags : Word) : Word × Word × Word :=
  (BitVec.ofNat 32 headerMagic, flags, -(BitVec.ofNat 32 headerMagic) - flags)

end Multiboot
end Ia32Memory
