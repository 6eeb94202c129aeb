import Netlist.Command.Flag
import Netlist.Manifest

/-!
# Why a command fails
-/

namespace Netlist

/-- Why a command fails before it can report on a design. -/
inductive CommandError where
  | badFlag (fault : Command.FlagFault)
  | unknownCommand (word : String) (close : List String)
  | unexpectedArgument (word command : String)
  | wrongArguments (wanted got : Nat)
  | badTraceSetting (flag reason : String)
  | noTrace (reason : String)
  | noTraceFile (error : FileError)
  | badColor (word : String)
  | badFormat (what word choices : String)
  | badPathMode (word : String)
  | badSeverity (reason : String)
  | noEntry (path : String) (error : FileError)
  | badManifest (error : Manifest.ManifestError)
  | noCache (error : FileError)
  | noOutput (path : String) (error : FileError)
  | binaryToTerminal
  | badNamed (value : String)
  | namedTwice (name : String)
  | cancelled

namespace CommandError

def message : CommandError → String
  | badFlag fault => fault.message
  | unknownCommand word close =>
    let hint := if close.isEmpty then "" else
      "\n\nDid you mean this?\n" ++ String.join (close.map fun n => "\t" ++ n ++ "\n")
    "unknown command " ++ Text.quoted word ++ " for \"netc\"" ++ hint
  | unexpectedArgument word command =>
    "unknown command " ++ Text.quoted word ++ " for " ++ Text.quoted ("netc " ++ command)
  | wrongArguments wanted got =>
    "accepts " ++ Decimal.ofNat wanted ++ " arg(s), received " ++ Decimal.ofNat got
  | badTraceSetting flag reason => "--" ++ flag ++ ": " ++ reason
  | noTrace reason => "failed to create tracer: " ++ reason
  | noTraceFile e => "failed to create tracer: failed to open trace output: " ++ e.message
  | badColor word => "invalid color mode " ++ Text.quoted word ++ " (expected: auto|on|off)"
  | badFormat what word choices =>
    "unsupported " ++ what ++ " " ++ Text.quoted word ++ " (must be " ++ choices ++ ")"
  | badPathMode word => "invalid path mode " ++ Text.quoted word
  | badSeverity reason => reason
  | noEntry path e => "failed to stat " ++ Text.quoted path ++ ": " ++ e.message
  | badManifest e => e.message
  | noCache e => "failed to open disk cache: " ++ e.message
  | noOutput path e => "failed to create " ++ Text.quoted path ++ ": " ++ e.message
  | binaryToTerminal => "refusing to write msgpack to a terminal, use -o"
  | badNamed value => "invalid --named value " ++ Text.quoted value ++ " (want name=definition)"
  | namedTwice name => "named pattern " ++ Text.quoted name ++ " given twice"
  | cancelled => "context canceled"

/-- What is printed after the message. -/
def hint : CommandError → String
  | unknownCommand _ _ => "Run 'netc --help' for usage.\n"
  | _ => ""

end CommandError

end Netlist
