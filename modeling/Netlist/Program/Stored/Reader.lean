import Netlist.Program.Stored.Basic

/-!
# Reading stored programs

The readers of the layout.  A field that is named twice is read over its first
value.  Modules and programs are the exception: they are read as a whole, and
where a second value is missing nothing is left of the first.
-/

namespace Netlist.Stored

open MessagePack

def readIdent : Reader Ident := return ⟨← Reader.binary⟩

def Param.readOver : Param → Reader Param :=
  Reader.recordOver {}
    [("n", Reader.field Reader.binary fun p b => { p with name := b }),
     ("v", Reader.field Reader.binary fun p b => { p with value := b })]

def readParams : Slots Param → Reader (Slots Param) := Reader.slotsOver {} Param.readOver

def Origin.readOver : Origin → Reader Origin :=
  Reader.recordOver {}
    [("x", Reader.field readIdent fun o b => { o with expression := b }),
     ("s", Reader.field Reader.int fun o n => { o with segment := n }),
     ("b", Reader.field Reader.binary fun o b => { o with base := b }),
     ("p", Reader.field (Reader.list Part.reader) fun o ps => { o with parts := ps })]

def readOrigin : Option Origin → Reader (Option Origin) := Reader.optionOver {} Origin.readOver

def Ref.readOver : Ref → Reader Ref :=
  Reader.recordOver {}
    [("k", Reader.field (Reader.uint 8) fun r n => { r with kind := ⟨UInt8.ofNat n⟩ }),
     ("i", Reader.field readIdent fun r b => { r with id := b }),
     ("t", Reader.field Reader.binary fun r b => { r with token := b })]

def Net.readOver : Net → Reader Net :=
  Reader.recordOver {}
    [("id", Reader.field readIdent fun n b => { n with id := b }),
     ("name", Reader.field Reader.binary fun n b => { n with name := b }),
     ("port", Reader.field Reader.bool fun n b => { n with isPort := b }),
     ("origin", Reader.fieldOver Net.origin readOrigin fun n o => { n with origin := o })]

def Instance.readOver : Instance → Reader Instance :=
  Reader.recordOver {}
    [("id", Reader.field readIdent fun i b => { i with id := b }),
     ("name", Reader.field Reader.binary fun i b => { i with name := b }),
     ("ref", Reader.fieldOver Instance.ref Ref.readOver fun i r => { i with ref := r }),
     ("params", Reader.fieldOver Instance.params readParams fun i ps => { i with params := ps }),
     ("origin", Reader.fieldOver Instance.origin readOrigin fun i o => { i with origin := o })]

def Endpoint.readOver : Endpoint → Reader Endpoint :=
  Reader.recordOver {}
    [("id", Reader.field readIdent fun e b => { e with id := b }),
     ("net", Reader.field readIdent fun e b => { e with net := b }),
     ("inst", Reader.field readIdent fun e b => { e with inst := b }),
     ("port", Reader.field Reader.binary fun e b => { e with port := b }),
     ("default", Reader.field Reader.bool fun e b => { e with isDefault := b })]

/-- Reads a list of things, each of which may be missing. -/
def readThings {α : Type} (zero : α) (thing : α → Reader α) :
    Slots (Option α) → Reader (Slots (Option α)) :=
  Reader.slotsOver none (Reader.optionOver zero thing)

def readPorts : Option (List Bytes) → Reader (Option (List Bytes)) := Reader.listOver Reader.binary

def Module.readFields : Reader Module :=
  Reader.record {}
    [("id", Reader.field readIdent fun m b => { m with id := b }),
     ("name", Reader.field Reader.binary fun m b => { m with name := b }),
     ("ports", Reader.fieldOver Module.ports readPorts fun m ps => { m with ports := ps }),
     ("params", Reader.fieldOver Module.parameters readParams fun m ps =>
       { m with parameters := ps }),
     ("nets", Reader.fieldOver Module.nets (readThings {} Net.readOver) fun m ns =>
       { m with nets := ns }),
     ("instances", Reader.fieldOver Module.instances (readThings {} Instance.readOver) fun m is =>
       { m with instances := is }),
     ("endpoints", Reader.fieldOver Module.endpoints (readThings {} Endpoint.readOver) fun m es =>
       { m with endpoints := es })]

/-- Reads a module.  Its lists of things are there even when they are not named. -/
def Module.reader : Reader Module := do
  let m ← Module.readFields
  return { m with nets := m.nets.settled, instances := m.instances.settled,
                  endpoints := m.endpoints.settled }

/-- Reads what a back end needs to know. -/
def Backend.readOver : Backend → Reader Backend :=
  Reader.recordOver {}
    [("name", Reader.field Reader.binary fun k b => { k with name := b }),
     ("fields", Reader.fieldOver Backend.fields readParams fun k ps => { k with fields := ps })]

def Device.readOver : Device → Reader Device :=
  Reader.recordOver {}
    [("id", Reader.field readIdent fun d b => { d with id := b }),
     ("name", Reader.field Reader.binary fun d b => { d with name := b }),
     ("ports", Reader.fieldOver Device.ports readPorts fun d ps => { d with ports := ps }),
     ("params", Reader.fieldOver Device.parameters readParams fun d ps =>
       { d with parameters := ps }),
     ("backends", Reader.fieldOver Device.backends (Reader.slotsOver {} Backend.readOver)
       fun d ks => { d with backends := ks })]

def Program.readFields : Reader Program :=
  Reader.record {}
    [("top", Reader.field readIdent fun p b => { p with top := b }),
     ("modules", Reader.fieldOver Program.modules
       (Reader.slotsOver none (Reader.wholeOver {} Module.reader)) fun p ms =>
       { p with modules := ms }),
     ("devices", Reader.fieldOver Program.devices (readThings {} Device.readOver) fun p ds =>
       { p with devices := ds }),
     ("emit_order", Reader.field (Reader.list readIdent) fun p is =>
       { p with emitOrder := is })]

/-- Reads a program.  Its lists of things are there even when they are not named. -/
def Program.reader : Reader Program := do
  let p ← Program.readFields
  return { p with modules := p.modules.settled, devices := p.devices.settled }

end Netlist.Stored
