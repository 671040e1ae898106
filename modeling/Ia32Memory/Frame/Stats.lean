/-! Counts of physical frames: how many there are, how many are free, used, reserved for the
kernel, and how many lie in lower and in upper memory. -/

namespace Ia32Memory

structure Stats where
  total : Nat
  free : Nat
  used : Nat
  kernel : Nat
  lower : Nat
  upper : Nat
  deriving DecidableEq

namespace Stats

def kib? (frames : Nat) : Option Nat :=
  if frames * 4 < 1 <<< 64 then some (frames * 4) else none

def report? (s : Stats) : Option String := do
  let total ← kib? s.total
  let lower ← kib? s.lower
  let upper ← kib? s.upper
  let free ← kib? s.free
  let used ← kib? s.used
  let kernel ← kib? s.kernel
  return s!"{total} KiB total ({lower} KiB lower, {upper} KiB upper), " ++
    s!"{free} KiB free, {used} KiB used, {kernel} KiB kernel"

def debugText (s : Stats) : String :=
  "MemoryStats \x7b " ++ s!"total: {s.total}, free: {s.free}, used: {s.used}, " ++
    s!"kernel: {s.kernel}, lower: {s.lower}, upper: {s.upper}" ++ " \x7d"

def optionText : Option Stats → String
  | none => "None"
  | some s => "Some(" ++ s.debugText ++ ")"

end Stats
end Ia32Memory
