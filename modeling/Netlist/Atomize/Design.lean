import Netlist.Atomize.Module
import Netlist.Program.Verify

/-!
# Atomizing a design

Modules are atomized in order with one allocator, so the same design always
gives the same identifiers.  There is a program only if no error was reported and
the result passes the verifier.
-/

namespace Netlist

/-- Atomizes modules in order. -/
def atomizeModules (design : Design) (maxAtoms : Int) :
    Allocator → List DesignModule → Logged (List Module × Allocator)
  | alloc, [] => pure ([], alloc)
  | alloc, m :: rest => do
    let (modul, alloc) ← atomizeModule ⟨design.expressions, m, maxAtoms⟩ alloc
    let (modules, alloc) ← atomizeModules design maxAtoms alloc rest
    return (modul :: modules, alloc)

/-- A program with the order in which its modules are written. -/
def Program.ordered (p : Program) : Program :=
  let order := Hierarchy.order (Hierarchy.graph p)
  { p with emitOrder := some (Hierarchy.emitOrder (Hierarchy.index p) order) }

def Design.atomize (design : Design) (alloc : Allocator) (maxAtoms : Int) :
    Logged (Option Program) := do
  let r := atomizeModules design maxAtoms alloc design.modules
  Logged.reportAll r.log
  if r.hasErrors then return none
  else
    let p : Program :=
      { top := design.top
        modules := IdMap.ofItems Module.id r.value.1
        devices := IdMap.ofItems Device.id design.devices }
    if ← p.verify then return some p.ordered else return none

end Netlist
