import Ia32Memory.Address.Checked
import Ia32Memory.Bits.Field
import Ia32Memory.Bits.Word

/-! Entries of page directories and page tables.
Both kinds share one form: nine flags, three bits for the system's own use and the frame number.
A directory entry that is present leads to a table, a table entry that is present to a mapped
frame.  Pages of 4 MiB are not used, so reading a link whose large flag is set is a fault. -/

namespace Ia32Memory

abbrev Entry := Word

namespace Entry

def presentField : Field := .flag "present" 0
def writableField : Field := .flag "writable" 1
def userField : Field := .flag "user_access" 2
def writeThroughField : Field := .flag "write_through" 3
def cacheDisabledField : Field := .flag "cache_disabled" 4
def accessedField : Field := .flag "accessed" 5
def dirtyField : Field := .flag "dirty" 6
def largeField : Field := .flag "large_page" 7
def globalField : Field := .flag "global_translation" 8
def systemField : Field := ⟨"os_available", 9, 3⟩
def frameField : Field := ⟨"frame", 12, 20⟩

def layout : Layout 32 where
  fields := [presentField, writableField, userField, writeThroughField, cacheDisabledField,
    accessedField, dirtyField, largeField, globalField, systemField]
  fresh := 0

def present (e : Entry) : Bool := presentField.isSet e

def writable (e : Entry) : Bool := writableField.isSet e

def userAccess (e : Entry) : Bool := userField.isSet e

def large (e : Entry) : Bool := largeField.isSet e

def withWritable (e : Entry) (b : Bool) : Entry := writableField.assign e b

def frame (e : Entry) : PhysicalPage :=
  ⟨frameField.get e, Nat.mod_lt _ (by decide)⟩

def withFrame (e : Entry) (p : PhysicalPage) : Entry := frameField.put e p.number

def flagsOnly (e : Entry) : Entry := frameField.put e 0

/-- A present entry for 4 KiB that leads to `frame`, other flags as given. -/
def aimedAt (frame : PhysicalPage) (flags : Entry) : Entry :=
  Entry.withFrame (presentField.assign (largeField.assign flags false) true) frame

def table? (e : Entry) : Except Fault (Option PhysicalPage) :=
  if e.present then
    if e.large then .error .largePage else .ok (some e.frame)
  else .ok none

def mapped? (e : Entry) : Option (PhysicalPage × Entry) :=
  if e.present then some (e.frame, e.flagsOnly) else none

def kernelReadOnly : Entry := presentField.assign (0 : Entry) true

def kernelReadWrite : Entry := kernelReadOnly.withWritable true

def userReadOnly : Entry := userField.assign kernelReadOnly true

def userReadWrite : Entry := userField.assign kernelReadWrite true

end Entry
end Ia32Memory
