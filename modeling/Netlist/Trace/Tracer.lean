import Netlist.FileTree
import Netlist.Trace.Ring

/-!
# Recording a run

A tracer numbers events and hands them to a ring, to a stream of lines, or to
both.  A span is a step under way: it is begun below another place of the trace
and ended with a remark.  A span that the level does not record leaves no event,
and what is begun below it is placed below its own parent.  The numbers have 64
bits; what is begun below a span whose number has come round to zero is placed
below its parent, too.
-/

namespace Netlist.Trace

/-- A place in the trace: the innermost recorded step there. -/
structure Place where
  /-- The step; zero if there is none. -/
  spanId : UInt64 := 0
  /-- The names from the outermost step, joined by slashes. -/
  path : String := ""
  /-- How many steps there are. -/
  depth : Int := 0
  deriving DecidableEq, Repr

namespace Place

/-- The path of something with a name at a place. -/
def childPath (p : Place) (name : String) : String :=
  if p.path.isEmpty then name else p.path ++ "/" ++ name

/-- The place inside a step. -/
def child (p : Place) (id : UInt64) (name : String) : Place :=
  { spanId := id, path := p.childPath name, depth := p.depth + 1 }

end Place

/-- A step under way. -/
structure Span where
  recorded : Bool
  /-- Its own place; that of its parent when it is not recorded. -/
  own : Place
  /-- The place of what is begun inside it. -/
  place : Place
  /-- The step around it. -/
  parentId : UInt64 := 0
  /-- What it belongs to. -/
  scope : Scope := ⟨0⟩
  name : String := ""
  /-- Values that its end shows. -/
  extra : List (String × String) := []

/-- Lines written as the events happen. -/
structure Stream where
  format : Format
  /-- When the stream was opened. -/
  start : Int
  /-- The file that the lines go to, if they go to one. -/
  file : Option String := none
  text : String := ""

/-- Numbers events and hands them on. -/
structure Tracer where
  level : Level
  /-- Keeps the newest events. -/
  ring : Option Ring := none
  /-- Writes events as they happen. -/
  stream : Option Stream := none
  /-- The number of the last event. -/
  seq : UInt64 := 0
  /-- The number of the last step. -/
  spans : UInt64 := 0

namespace Tracer

/-- A tracer that records nothing. -/
def none : Tracer := { level := Level.off }

/-- A tracer with a ring. -/
def withRing (level : Level) (capacity : Int) : Tracer :=
  { level := level, ring := some (Ring.new capacity level) }

/-- A tracer for a mode of storage; `now` is when its stream is opened. -/
def new (level : Level) (storage : Storage) (capacity : Int) (format : Format) (now : Int) :
    Except String Tracer :=
  let ring := some (Ring.new capacity level)
  let stream : Option Stream := some { format := format, start := now }
  if level == Level.off then .ok none
  else if storage == Storage.ring then .ok { level := level, ring := ring }
  else if storage == Storage.stream then .ok { level := level, stream := stream }
  else if storage == Storage.both then .ok { level := level, ring := ring, stream := stream }
  else .error ("unknown storage mode: " ++ storage.name)

/-- The tracer with its stream going to a file. -/
def toFile (t : Tracer) (path : String) : Tracer :=
  { t with stream := t.stream.map fun s => { s with file := some path } }

/-- Whether anything may be recorded. -/
def enabled (t : Tracer) : Bool := t.level != Level.off

/-- Hands an event on, with the next number. -/
def emit (t : Tracer) (event : UInt64 → Event) : Tracer :=
  let e := event (t.seq + 1)
  let stream := t.stream.map fun s =>
    if t.level.emits e.scope then { s with text := s.text ++ e.line s.format s.start } else s
  { t with seq := t.seq + 1, ring := t.ring.map (·.emit e), stream := stream }

/-- Begins a step at a place. -/
def start (t : Tracer) (now : Int) (scope : Scope) (name : String) (parent : Place) :
    Span × Tracer :=
  if t.enabled && t.level.records scope then
    let id := t.spans + 1
    let own := parent.child id name
    let span : Span :=
      { recorded := true, own := own, place := if id == 0 then parent else own,
        parentId := parent.spanId, scope := scope, name := name }
    let t := t.emit fun seq =>
      { time := now, seq := seq, kind := Kind.start, scope := scope, spanId := id,
        parentId := parent.spanId, depth := parent.depth, path := own.path, name := name,
        detail := "", extra := [] }
    (span, { t with spans := id })
  else ({ recorded := false, own := parent, place := parent }, t)

/-- Ends a step with a remark. -/
def finish (t : Tracer) (now : Int) (span : Span) (detail : String) : Tracer :=
  if span.recorded then
    t.emit fun seq =>
      { time := now, seq := seq, kind := Kind.finish, scope := span.scope,
        spanId := span.own.spanId, parentId := span.parentId, depth := span.own.depth - 1,
        path := span.own.path, name := span.name, detail := detail, extra := span.extra }
  else t

/-- Records an instant at a place. -/
def point (t : Tracer) (now : Int) (scope : Scope) (name detail : String) (parent : Place) :
    Tracer :=
  if t.enabled && t.level.records scope then
    t.emit fun seq =>
      { time := now, seq := seq, kind := Kind.point, scope := scope, spanId := 0,
        parentId := parent.spanId, depth := parent.depth, path := parent.childPath name,
        name := name, detail := detail, extra := [] }
  else t

/-- Gives a name a value among others. -/
def setValue (extra : List (String × String)) (key value : String) : List (String × String) :=
  extra.filter (·.1 != key) ++ [(key, value)]

/-- Attaches a value to a step.  The values belong to the step, so an end of it
that is kept and already shows values shows this one too. -/
def attach (t : Tracer) (span : Span) (key value : String) : Span × Tracer :=
  if span.recorded then
    let extra := setValue span.extra key value
    let update := fun (e : Event) =>
      if e.kind == Kind.finish && e.spanId == span.own.spanId && !e.extra.isEmpty then
        { e with extra := extra }
      else e
    ({ span with extra := extra }, { t with ring := t.ring.map (·.map update) })
  else (span, t)

/-- The files as a reader finds them while the tracer writes: the file of the stream
holds what was written so far. -/
def view (t : Tracer) (tree : FileTree) : FileTree :=
  match t.stream.bind fun s => s.file.map (·, Bytes.ofString s.text) with
  | some (path, text) => ((tree.write path text).toOption).getD tree
  | .none => tree

/-- The kept events, oldest first. -/
def events (t : Tracer) : List Event := (t.ring.map (·.snapshot)).getD []

end Tracer

end Netlist.Trace
