import Ia32Memory.Bits.Field
import Ia32Memory.Bits.Word

/-! The error code of a page fault, and what it says in words. -/

namespace Ia32Memory

abbrev FaultCode := Word

namespace FaultCode

def presentField : Field := .flag "present" 0
def writeField : Field := .flag "write" 1
def userField : Field := .flag "user" 2
def reservedField : Field := .flag "reserved_bit" 3
def fetchField : Field := .flag "instruction_fetch" 4

def layout : Layout 32 where
  fields := [presentField, writeField, userField, reservedField, fetchField]
  fresh := 0

def present (c : FaultCode) : Bool := presentField.isSet c

def write (c : FaultCode) : Bool := writeField.isSet c

def user (c : FaultCode) : Bool := userField.isSet c

def reserved (c : FaultCode) : Bool := reservedField.isSet c

def fetch (c : FaultCode) : Bool := fetchField.isSet c

/-- The gravest cause is named: a reserved bit, then a missing page, then a fetch, then a write. -/
def explain (c : FaultCode) : String :=
  if c.reserved then "Reserved bit set in a paging structure"
  else if !c.present then
    if c.user then "User access to a non-present page" else "Kernel access to a non-present page"
  else if c.fetch then "Instruction fetch from a protected page"
  else if c.write then
    if c.user then "User write to a read-only or supervisor page"
    else "Kernel write to a read-only page"
  else "Read access to a protected page"

def text (c : FaultCode) : String :=
  "error code 0x" ++ Hexadecimal.lower 1 c.toNat ++
    s!": present={c.present} write={c.write} user={c.user} reserved={c.reserved} fetch={c.fetch}"

end FaultCode
end Ia32Memory
