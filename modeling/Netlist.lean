import Netlist.Design.Json
import Netlist.Document.Spans
import Netlist.Main
import Netlist.Program.Check
import Netlist.Proofs.Atomize.Overrides
import Netlist.Proofs.Axis.Broadcast
import Netlist.Proofs.Design.Patterns
import Netlist.Proofs.Elaborate.Backstop
import Netlist.Proofs.Elaborate.Places
import Netlist.Proofs.Elaborate.TimingEntry
import Netlist.Proofs.Elaborate.Transparency
import Netlist.Proofs.Hierarchy.Levels
import Netlist.Proofs.Pattern.Names
import Netlist.Proofs.Pattern.PartJson
import Netlist.Proofs.Pattern.Rendering
import Netlist.Proofs.Program.Recursion
import Netlist.Proofs.Program.Snapshot
import Netlist.Proofs.Report.Snippet
import Netlist.Proofs.Symbol.History
import Netlist.Proofs.Symbol.Resolution
import Netlist.Proofs.Trace.Projection
import Netlist.Report.Listing
