import Ia32Memory.Bits.Words
import Ia32Memory.Boot.Image

/-! How many words the maps of a frame allocator take: a bit for each frame, a bit for each
superframe, and a usage counter of 16 bits for each frame. -/

namespace Ia32Memory

structure MapLayout where
  frameWords : Nat
  superframeWords : Nat
  usageWords : Nat

namespace MapLayout

def superframesFor (frames : Nat) : Nat := (frames + 1023) / 1024

def forFrames (frames : Nat) : MapLayout :=
  ⟨wordsFor frames, wordsFor (superframesFor frames), (frames + 1) / 2⟩

def words (l : MapLayout) : Except Fault Nat := do
  let n ← fit 64 (l.frameWords + l.superframeWords)
  fit 64 (n + l.usageWords)

def bytes (l : MapLayout) : Except Fault Nat := do
  let n ← l.words
  fit 64 (n * 4)

def frames (l : MapLayout) : Except Fault Nat := do
  let n ← l.bytes
  return framesFor n

def storageWords (frames : Nat) : Except Fault Nat := (forFrames frames).words

end MapLayout
end Ia32Memory
