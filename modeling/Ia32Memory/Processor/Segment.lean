import Ia32Memory.Bits.Field

/-! Segment descriptors and the table of the three that are used: none, code and data.
The base of a descriptor is spread over three fields.  Every segment spans all of memory, is
present, has 32-bit operands, pages as its unit and the highest privilege. -/

namespace Ia32Memory

abbrev Descriptor := BitVec 64

namespace Descriptor

def limitLowField : Field := ⟨"limit_lo", 0, 16⟩
def baseLowField : Field := ⟨"base_lo", 16, 16⟩
def baseMidField : Field := ⟨"base_mid", 32, 8⟩
def typeField : Field := ⟨"typ", 40, 4⟩
def segmentField : Field := .flag "s" 44
def privilegeField : Field := ⟨"dpl", 45, 2⟩
def presentField : Field := .flag "p" 47
def limitHighField : Field := ⟨"limit_hi", 48, 4⟩
def availableField : Field := .flag "avl" 52
def longField : Field := .flag "l" 53
def wideField : Field := .flag "db" 54
def pagesField : Field := .flag "g" 55
def baseHighField : Field := ⟨"base_hi", 56, 8⟩

def layout : Layout 64 where
  fields := [limitLowField, baseLowField, baseMidField, typeField, segmentField, privilegeField,
    presentField, limitHighField, availableField, longField, wideField, pagesField,
    baseHighField]
  fresh := 0

def ring0 (type base : Nat) : Descriptor :=
  let d : Descriptor := limitLowField.put layout.fresh 0xFFFF
  let d := limitHighField.put d 0xF
  let d := baseLowField.put d base
  let d := baseMidField.put d (base >>> 16)
  let d := baseHighField.put d (base >>> 24)
  let d := typeField.put d type
  let d := segmentField.assign d true
  let d := privilegeField.put d 0
  let d := presentField.assign d true
  let d := wideField.assign d true
  pagesField.assign d true

def code (base : Nat) : Descriptor := ring0 0b1010 base

def data (base : Nat) : Descriptor := ring0 0b0010 base

def base (d : Descriptor) : Nat :=
  baseLowField.get d + baseMidField.get d <<< 16 + baseHighField.get d <<< 24

end Descriptor

namespace SegmentTable

def descriptors (base : Nat) : List Descriptor :=
  [0, Descriptor.code base, Descriptor.data base]

def codeSelector : Nat := 0x08

def dataSelector : Nat := 0x10

def limit : Nat := 3 * 8 - 1

end SegmentTable
end Ia32Memory
