import Ia32Memory.Log
import Ia32Memory.Machine.Page
import Ia32Memory.Paging.FaultCode

/-! What is said about a page fault before the system stops. -/

namespace Ia32Memory

structure FaultReport where
  lines : List String
  fault : Fault
  deriving DecidableEq

namespace FaultReport

/-- The fault in words, its code, and the walk of the address.  If the walk cannot be made, that
is what the system stops with. -/
def make (m : PhysicalMemory) (space : Option AddressSpace) (address : VirtualAddress)
    (code : FaultCode) : FaultReport :=
  let fault := Fault.pageFault address code.explain
  let head := [fault.message, code.text]
  match space.map (·.walkIn m address) with
  | none => ⟨head ++ ["no address space active"], fault⟩
  | some (.ok walk) => ⟨head ++ ["walk " ++ walk.text], fault⟩
  | some (.error other) => ⟨head, other⟩

def sayIn (report : FaultReport) (r : Record) : Record :=
  report.lines.foldl (fun r line => r.say .error line) r

end FaultReport

def Paging.reportFault {α : Type} (space : Option AddressSpace) (address : VirtualAddress)
    (code : FaultCode) : Paging α := do
  let report := FaultReport.make (← get).memory space address code
  modify fun m => { m with record := report.sayIn m.record }
  throw report.fault

end Ia32Memory
