import Ia32Memory.Kernel.Basic

/-! Access to memory as the processor makes it, and what the kernel does with it: reading the
boot record, the report of a page fault, and the self check at the end of boot. -/

namespace Ia32Memory.Kernel

def translate (k : Kernel) (address : VirtualAddress) : Option Translation :=
  k.processor.translate k.ram address

/-- Where the processor finds the first and the last byte of the word at an address.  Unless it
is aligned, a word may lie in two pages. -/
def translateWord (k : Kernel) (address : VirtualAddress) : Option (Translation × Translation) := do
  let first ← k.translate address
  if address.toNat % 4 = 0 then return (first, first)
  return (first, ← k.translate (Address.truncate (address.toNat + 3)))

def read? (k : Kernel) (address : VirtualAddress) : Option Word :=
  (k.translateWord address).map fun (first, last) =>
    k.ram.loadAcross (first.address.toNat / 4) (last.address.toNat / 4) (address.toNat % 4)

def write? (k : Kernel) (address : VirtualAddress) (w : Word) : Option Kernel := do
  let (first, last) ← k.translateWord address
  let low := first.address.toNat / 4
  let high := last.address.toNat / 4
  if first.writable && last.writable then
    some { k with ram := k.ram.storeAcross low high (address.toNat % 4) w }
  else none

def readWord (address : VirtualAddress) : Step Word := do
  let some w := (← get).read? address | throw (.unmappedAccess address)
  return w

def writeWord (address : VirtualAddress) (w : Word) : Step Unit := do
  let some k := (← get).write? address w | throw (.unmappedAccess address)
  set k

/-- The memory sizes in the boot record at a physical address, which is read where the kernel sees
physical memory.  All words of the record are read. -/
def bootMemory (record : PhysicalAddress) : Step (Option BootMemory) := do
  let start := AddressMap.toVirtual record.toNat
  let words ← (List.range Multiboot.recordWords).mapM fun i =>
    readWord (Address.truncate (start.toNat + 4 * i))
  match words with
  | flags :: lower :: upper :: _ => return Multiboot.memory? flags lower upper
  | _ => return none

/-- The root of the active space, got without waiting for its lock; none if the lock is held. -/
def tryCurrentRoot (c : Core Lock Kernel) : Option PhysicalPage × Core Lock Kernel :=
  match c.tryLock .root with
  | (none, c) => (none, c)
  | (some g, c) => (c.value.root, c.giveBack g)

def pageFault (address : VirtualAddress) (code : FaultCode) (c : Core Lock Kernel) :
    Fault × Core Lock Kernel :=
  let (root, c) := tryCurrentRoot c
  let report := FaultReport.make c.value.ram (root.map c.value.spaceUnder) address code
  (report.fault, { c with value := { c.value with record := report.sayIn c.value.record } })

def scratchWord : Word := 0x65676170

/-- Maps the scratch pages, looks for zeros, writes, unmaps them, and stops if any frame was
lost on the way. -/
def checkMappings (memory : BootMemory) : Call Unit := do
  let start := AddressMap.scratchStart
  let stop := Address.truncate (start.toNat + AddressMap.scratchPages * 4096)
  let before ← stats
  match ← mapRange start stop Entry.kernelReadWrite with
  | .error e =>
    .touch [] <| say .warn s!"scratch mapping {start.text}..{stop.text} failed: {e.message}"
  | .ok () =>
    .touch [] do
      let w ← readWord start
      if w ≠ 0 then throw (.scratchNotZero w.toNat)
      writeWord start scratchWord
    let target ← query start
    let shown := (target.map fun a => "Some(" ++ a.debugText ++ ")").getD "None"
    .touch [] <|
      say .info s!"scratch {start.text} -> {shown} of {memory.totalFrames} frames total"
    if let .error e ← unmapRange start stop then
      .touch [] <| say .warn s!"scratch unmapping {start.text}..{stop.text} failed: {e.message}"
    let after ← stats
    if after ≠ before then .touch [] (throw (.scratchLeaked after before))

end Ia32Memory.Kernel
