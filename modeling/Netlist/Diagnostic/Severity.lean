import Netlist.Text.Quoted

/-!
# Severities

A severity is a rank; a higher rank is worse.  Three ranks have names.  From
`error` on a diagnostic takes the result of its stage away.
-/

namespace Netlist

/-- How bad a problem is. -/
structure Severity where
  /-- The rank; higher is worse. -/
  rank : UInt8
  deriving DecidableEq, Repr, Hashable

namespace Severity

/-- Something worth knowing. -/
def info : Severity := ⟨0⟩

/-- Something that looks wrong. -/
def warning : Severity := ⟨1⟩

/-- Something that is wrong. -/
def error : Severity := ⟨2⟩

/-- The name that messages show. -/
def name (s : Severity) : String :=
  match s.rank.toNat with
  | 0 => "INFO"
  | 1 => "WARNING"
  | 2 => "ERROR"
  | _ => "UNKNOWN"

/-- Whether the severity takes the result away. -/
def isError (s : Severity) : Bool := error.rank ≤ s.rank

/-- The severity that a word on the command line names. -/
def parse (word : String) : Except String Severity :=
  match word with
  | "info" => .ok info
  | "warning" => .ok warning
  | "warn" => .ok warning
  | "error" => .ok error
  | _ => .error ("invalid severity " ++ Text.quoted word ++ " (expected: info|warning|error)")

end Severity

end Netlist
