import Ia32Memory.Processor.Segment

/-! Interrupt gates and the table of 256 of them. -/

namespace Ia32Memory

abbrev Gate := BitVec 64

namespace Gate

def offsetLowField : Field := ⟨"offset_lo", 0, 16⟩
def selectorField : Field := ⟨"selector", 16, 16⟩
def typeField : Field := ⟨"typ", 40, 4⟩
def segmentField : Field := .flag "s" 44
def privilegeField : Field := ⟨"dpl", 45, 2⟩
def presentField : Field := .flag "p" 47
def offsetHighField : Field := ⟨"offset_hi", 48, 16⟩

def layout : Layout 64 where
  fields := [offsetLowField, selectorField, typeField, segmentField, privilegeField,
    presentField, offsetHighField]
  fresh := 0

/-- Leads the gate to a handler in the code segment.  Only the low 32 bits of the address count. -/
def withHandler (g : Gate) (handler : Nat) : Gate :=
  let g : Gate := offsetLowField.put g handler
  let g : Gate := offsetHighField.put g (handler >>> 16)
  selectorField.put g SegmentTable.codeSelector

def withType (g : Gate) (type : Nat) : Except Fault Gate :=
  typeField.putChecked g type

def withPresent (g : Gate) (b : Bool) : Gate := presentField.assign g b

def handler (g : Gate) : Nat :=
  offsetLowField.get g + offsetHighField.get g <<< 16

def interruptType : Nat := 0xE

def pageFaultVector : Nat := 0x0E

end Gate

abbrev GateTable := Vector Gate 256

namespace GateTable

def fresh : GateTable := Vector.replicate 256 0

def gate (t : GateTable) (vector : Nat) : Except Fault Gate :=
  if h : vector < 256 then .ok t[vector] else .error .outOfBounds

def setInterruptGate (t : GateTable) (vector handler : Nat) : Except Fault GateTable :=
  if h : vector < 256 then do
    let g ← (t[vector].withHandler handler).withType Gate.interruptType
    return t.set vector (g.withPresent true)
  else .error .outOfBounds

end GateTable
end Ia32Memory
