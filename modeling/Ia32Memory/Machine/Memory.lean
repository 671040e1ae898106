import Ia32Memory.Paging.Table
import Std.Data.HashMap

/-! Physical memory: 1024 words in each of the 2^20 frames, bytes in little-endian order.
Words that were never written hold the background. -/

namespace Ia32Memory

structure PhysicalMemory where
  background : Word
  written : Std.HashMap Nat EntryTable

namespace PhysicalMemory

def fresh (background : Word) : PhysicalMemory := ⟨background, ∅⟩

def frame (m : PhysicalMemory) (p : PhysicalPage) : EntryTable :=
  m.written.getD p.number (Vector.replicate 1024 m.background)

def word (m : PhysicalMemory) (p : PhysicalPage) (s : Slot) : Word :=
  (m.frame p).entry s

def putFrame (m : PhysicalMemory) (p : PhysicalPage) (t : EntryTable) : PhysicalMemory :=
  { m with written := m.written.insert p.number t }

def put (m : PhysicalMemory) (p : PhysicalPage) (s : Slot) (w : Word) : PhysicalMemory :=
  match m with
  | ⟨background, written⟩ =>
    ⟨background, written.alter p.number fun t =>
      some ((t.getD (Vector.replicate 1024 background)).put s w)⟩

def clear (m : PhysicalMemory) (p : PhysicalPage) : PhysicalMemory :=
  m.putFrame p EntryTable.zero

def place (n : Nat) : PhysicalPage × Slot :=
  (Page.truncate (n / 1024), ⟨n % 1024, Nat.mod_lt _ (by decide)⟩)

def wordAt (m : PhysicalMemory) (n : Nat) : Word :=
  m.word (place n).1 (place n).2

def putAt (m : PhysicalMemory) (n : Nat) (w : Word) : PhysicalMemory :=
  m.put (place n).1 (place n).2 w

/-- The word whose first byte is at `bytes` bytes into word `low` and whose last one is in word
`high`.  With no such bytes it is word `low`. -/
def loadAcross (m : PhysicalMemory) (low high bytes : Nat) : Word :=
  if bytes = 0 then m.wordAt low
  else (m.wordAt low >>> (8 * bytes)) ||| (m.wordAt high <<< (32 - 8 * bytes))

def storeAcross (m : PhysicalMemory) (low high bytes : Nat) (w : Word) : PhysicalMemory :=
  if bytes = 0 then m.putAt low w
  else
    let shift := 8 * bytes
    let m := m.putAt low ((m.wordAt low &&& Word.ones 0 shift) ||| (w <<< shift))
    m.putAt high ((m.wordAt high &&& Word.ones shift (32 - shift)) ||| (w >>> (32 - shift)))

def load (m : PhysicalMemory) (a : PhysicalAddress) : Word :=
  m.loadAcross (a.toNat / 4) (a.toNat / 4 + 1) (a.toNat % 4)

def store (m : PhysicalMemory) (a : PhysicalAddress) (w : Word) : PhysicalMemory :=
  m.storeAcross (a.toNat / 4) (a.toNat / 4 + 1) (a.toNat % 4) w

def storeAll (m : PhysicalMemory) (a : PhysicalAddress) : List Word → PhysicalMemory
  | [] => m
  | w :: rest => (m.store a w).storeAll (Address.truncate (a.toNat + 4)) rest

theorem frame_putFrame (m : PhysicalMemory) (p q : PhysicalPage) (t : EntryTable) :
    (m.putFrame p t).frame q = if p = q then t else m.frame q := by
  unfold frame putFrame
  rw [Std.HashMap.getD_insert]
  by_cases h : p = q
  · subst h
    simp
  · have hn : p.number ≠ q.number := fun e => h (Page.ext e)
    simp [h, hn]

theorem frame_put (m : PhysicalMemory) (p q : PhysicalPage) (s : Slot) (w : Word) :
    (m.put p s w).frame q = if p = q then (m.frame q).put s w else m.frame q := by
  unfold frame put
  rw [Std.HashMap.getD_alter]
  by_cases h : p = q
  · subst h
    simp [Std.HashMap.getD_eq_getD_getElem?]
  · have hn : p.number ≠ q.number := fun e => h (Page.ext e)
    simp [h, hn]

theorem word_put (m : PhysicalMemory) (p q : PhysicalPage) (s r : Slot) (w : Word) :
    (m.put p s w).word q r = if p = q ∧ s = r then w else m.word q r := by
  unfold word
  rw [frame_put]
  by_cases h : p = q
  · subst h
    simp [EntryTable.entry_put]
  · simp [h]

theorem word_clear (m : PhysicalMemory) (p q : PhysicalPage) (r : Slot) :
    (m.clear p).word q r = if p = q then 0 else m.word q r := by
  unfold clear word
  rw [frame_putFrame]
  by_cases h : p = q <;> simp [h]

end PhysicalMemory
end Ia32Memory
