import Ia32Memory.Bits.Scan
import Ia32Memory.Fault

/-! Operations on words that stop with a fault where a word is missing or the end of a range
leaves the 64-bit numbers.
A range is cut into spans whose masks must each fit one word, and every word that a span names is
looked up when its turn comes.  None of this goes wrong but for a range that does not fit its
words (`Proofs/Bits/Ranges.lean`).  A scan works out the place of its hit in 64-bit numbers, and
no capacity leads it beyond them (`Proofs/Bits/Scans.lean`). -/

namespace Ia32Memory

def maskChecked (lead count : Nat) : Except Fault Word :=
  if lead + count ≤ 32 then .ok (Word.ones lead count) else .error .maskTooLong

def visitWhole {α : Type} (visit : α → Span → Except Fault α) (acc : α) (word : Nat) :
    Nat → Except Fault α
  | 0 => .ok acc
  | n + 1 => do visitWhole visit (← visit acc ⟨word, Word.allOnes⟩) (word + 1) n

def visitSpans {α : Type} (visit : α → Span → Except Fault α) (acc : α) (first count : Nat) :
    Except Fault α :=
  if count = 0 then .ok acc
  else do
    let stop ← fit 64 (first + count)
    let word := first / 32
    let lead := first % 32
    let last := stop / 32
    let tail := stop % 32
    if word = last then
      visit acc ⟨word, ← maskChecked lead (← minus tail lead)⟩
    else
      let inner := if lead = 0 then word else word + 1
      let acc ← if lead = 0 then .ok acc
        else visit acc ⟨word, ← maskChecked lead (← minus 32 lead)⟩
      let acc ← visitWhole visit acc inner (last - inner)
      if tail = 0 then .ok acc else visit acc ⟨last, ← maskChecked 0 tail⟩

namespace Words

def requireBit (ws : Words) (b : Nat) : Except Fault Unit :=
  if b / 32 < ws.size then .ok () else .error .outOfBounds

def get (ws : Words) (b : Nat) : Except Fault Bool := do
  ws.requireBit b
  return ws.bit b

def set (ws : Words) (b : Nat) : Except Fault Words := do
  ws.requireBit b
  return ws.setBit b

def clear (ws : Words) (b : Nat) : Except Fault Words := do
  ws.requireBit b
  return ws.clearBit b

def wordChecked (ws : Words) (i : Nat) : Except Fault Word :=
  if i < ws.size then .ok (ws.getD i 0) else .error .outOfBounds

def modifyChecked (ws : Words) (i : Nat) (change : Word → Word) : Except Fault Words :=
  if i < ws.size then .ok (ws.modify i change) else .error .outOfBounds

def fillChecked (ws : Words) (value : Word) (start n : Nat) : Except Fault Words :=
  if start + n ≤ ws.size then .ok (ws.fill value start n) else .error .outOfBounds

/-- Fills the words that lie wholly inside a range and changes those at its edges. -/
def writeRange (value : Word) (change : Word → Word → Word) (ws : Words) (first count : Nat) :
    Except Fault Words :=
  if count = 0 then .ok ws
  else do
    let _ ← fit 64 (first + count)
    let whole := wholeWords first count
    let filled ← ws.fillChecked value whole.1 whole.2
    visitSpans (fun ws s => if s.mask = Word.allOnes then .ok ws
      else ws.modifyChecked s.word (change s.mask)) filled first count

/-- Looks at every span, also behind one that fails the test. -/
def testRange (holds : Word → Word → Bool) (ws : Words) (first count : Nat) :
    Except Fault Bool :=
  visitSpans (fun ok s => do return ok && holds s.mask (← ws.wordChecked s.word)) true first count

def setRangeChecked (ws : Words) (first count : Nat) : Except Fault Words :=
  ws.writeRange Word.allOnes (fun mask w => w ||| mask) first count

def clearRangeChecked (ws : Words) (first count : Nat) : Except Fault Words :=
  ws.writeRange 0 (fun mask w => w &&& ~~~ mask) first count

def allSetChecked (ws : Words) (first count : Nat) : Except Fault Bool :=
  ws.testRange (fun mask w => w &&& mask == mask) first count

def allClearChecked (ws : Words) (first count : Nat) : Except Fault Bool :=
  ws.testRange (fun mask w => w &&& mask == 0) first count

def scanChecked (view : Word → Word) (ws : Words) (i stop : Nat) : Except Fault (Option Nat) :=
  if h : i < stop ∧ i < ws.size then
    match (view ws[i]).lowest? with
    | some b => do
      let start ← fit 64 (i * 32)
      return some (← fit 64 (start + b))
    | none => scanChecked view ws (i + 1) stop
  else .ok none
termination_by stop - i

def findFirstChecked (view : Word → Word) (ws : Words) (count : Nat) :
    Except Fault (Option Nat) := do
  return (← ws.scanChecked view 0 (wordsFor count)).filter (· < count)

def findFirstSetChecked (ws : Words) (capacity : Nat) : Except Fault (Option Nat) :=
  ws.findFirstChecked id capacity

def findFirstClearChecked (ws : Words) (capacity : Nat) : Except Fault (Option Nat) :=
  ws.findFirstChecked (~~~ ·) capacity

end Words
end Ia32Memory
