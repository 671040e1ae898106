import Ia32Memory.Bits.Checked

/-! Bit sets of a fixed capacity, kept in words.
The words always suffice for the capacity; bits of the last word beyond it are padding.  Single
bits and written ranges must lie below the capacity.  Tested ranges need only lie in the words.
Updates that do not check where they write leave the words beyond the capacity to the caller. -/

namespace Ia32Memory

structure Bitmap where
  words : Words
  capacity : Nat
  enough : wordsFor capacity ≤ words.size

namespace Bitmap

def ofWords (words : Words) (capacity : Nat) : Except Fault Bitmap :=
  if h : wordsFor capacity ≤ words.size then .ok ⟨words, capacity, h⟩
  else .error (.mapTooSmall words.size capacity)

def empty (capacity : Nat) : Bitmap :=
  ⟨Array.replicate (wordsFor capacity) 0, capacity, by simp⟩

def requireBit (m : Bitmap) (b : Nat) : Except Fault Unit :=
  if b < m.capacity then .ok () else .error (.bitOutOfRange b)

def requireRange (m : Bitmap) (first count : Nat) : Except Fault Unit := do
  let stop ← fit 64 (first + count)
  if stop ≤ m.capacity then .ok () else .error .rangeOutOfBounds

def setBit (m : Bitmap) (b : Nat) : Bitmap :=
  ⟨m.words.setBit b, m.capacity, by simpa using m.enough⟩

def clearBit (m : Bitmap) (b : Nat) : Bitmap :=
  ⟨m.words.clearBit b, m.capacity, by simpa using m.enough⟩

def setRange (m : Bitmap) (first count : Nat) : Bitmap :=
  ⟨m.words.setRange first count, m.capacity, by simpa using m.enough⟩

def clearRange (m : Bitmap) (first count : Nat) : Bitmap :=
  ⟨m.words.clearRange first count, m.capacity, by simpa using m.enough⟩

def get (m : Bitmap) (b : Nat) : Except Fault Bool := do
  m.requireBit b
  return m.words.bit b

def set (m : Bitmap) (b : Nat) : Except Fault Bitmap := do
  m.requireBit b
  return m.setBit b

def clear (m : Bitmap) (b : Nat) : Except Fault Bitmap := do
  m.requireBit b
  return m.clearBit b

def setRangeChecked (m : Bitmap) (first count : Nat) : Except Fault Bitmap := do
  m.requireRange first count
  return m.setRange first count

def clearRangeChecked (m : Bitmap) (first count : Nat) : Except Fault Bitmap := do
  m.requireRange first count
  return m.clearRange first count

def allSet (m : Bitmap) (first count : Nat) : Except Fault Bool :=
  m.words.allSetChecked first count

def allClear (m : Bitmap) (first count : Nat) : Except Fault Bool :=
  m.words.allClearChecked first count

def findFirstSet (m : Bitmap) : Option Nat :=
  m.words.findFirstSet m.capacity

def findFirstClear (m : Bitmap) : Option Nat :=
  m.words.findFirstClear m.capacity

/-- The lowest set bit among the `count` bits from `start` on that lie below the capacity.  A
window starts with a word, and its bits are counted from there. -/
def findFirstSetIn (m : Bitmap) (start count : Nat) : Except Fault (Option Nat) :=
  if start % 32 = 0 then
    if start / 32 ≤ m.words.size then do
      match ← Words.findFirstSetChecked (m.words.extract (start / 32))
        (min count (m.capacity - start)) with
      | some b => return some (← fit 64 (start + b))
      | none => return none
    else .ok none
  else .error (.unalignedWindow (start % 32))

def countSet (m : Bitmap) : Nat :=
  (List.range m.capacity).countP m.words.bit

def debugText (m : Bitmap) : String :=
  "Bitmap \x7b " ++ s!"capacity: {m.capacity}, words: {m.words.size}" ++ " \x7d"

def bitsPerLine : Nat := 65

def symbol (set : Bool) : Char := if set then '-' else 'U'

def drawing (m : Bitmap) : String :=
  String.ofList <| (List.range m.capacity).flatMap fun b =>
    if b % bitsPerLine = bitsPerLine - 1 then [symbol (m.words.bit b), '\n']
    else [symbol (m.words.bit b)]

end Bitmap
end Ia32Memory
