import Netlist.Document.Basic
import Netlist.Text.Quoted

/-!
# Do spans point at their text?

Every name and expression of a document should stand at its span in the file.
A text written with escapes or over several lines does not.
-/

namespace Netlist

/-- What is wrong with the span of a text. -/
def spanFault? (file : SourceFile) (what : String) (l : Located) : Option String :=
  if l.span.file != file.id then
    some (what ++ " " ++ Text.quoted l.text ++ ": span file mismatch: got=" ++
      Decimal.ofNat l.span.file.toNat ++ " want=" ++ Decimal.ofNat file.id.toNat)
  else if l.span.stop < l.span.start || file.content.length < l.span.stop.toNat then
    some (what ++ " " ++ Text.quoted l.text ++ ": span " ++ l.span.text ++ " outside content")
  else
    let found :=
      (file.content.drop l.span.start.toNat).take (l.span.stop.toNat - l.span.start.toNat)
    if found == Bytes.ofString l.text then none
    else some (what ++ ": span text " ++ Text.quotedBytes found ++ ", want " ++ Text.quoted l.text)

/-- The names and expressions of a document, with what they are: modules with their
instances and nets first, then devices. -/
def Document.texts (d : Document) : List (String × Located) :=
  d.modules.flatMap (fun m =>
    ("module", m.name) :: m.instances.map (fun i => ("instance", i.key)) ++
      m.nets.flatMap fun n =>
        ("net", n.name) :: n.endpoints.map fun e => ("endpoint", e.expression)) ++
    d.devices.map fun v => ("device", v.name)

/-- The first text of a document whose span is wrong, with what is wrong. -/
def Document.spanFault? (d : Document) (file : SourceFile) : Option String :=
  d.texts.findSome? fun (what, l) => Netlist.spanFault? file what l

end Netlist
