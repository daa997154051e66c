/-!
# How much is told about the work

Messages about the work have levels, and a level tells all that is at least as grave. Warnings are
told always; each question for more goes one level further.
-/

namespace HotkeyTree

/-- The levels of messages, the gravest first. -/
inductive Severity where
  /-- Something the user should know of. -/
  | warn
  /-- A step of the work. -/
  | info
  /-- A detail of a step. -/
  | debug
  /-- A detail of a detail. -/
  | trace
deriving DecidableEq, Repr

namespace Severity

/-- The name of a level. -/
def name : Severity → String
  | .warn => "warn"
  | .info => "info"
  | .debug => "debug"
  | .trace => "trace"

/-- The place of a level in their order. -/
def rank : Severity → Nat
  | .warn => 0
  | .info => 1
  | .debug => 2
  | .trace => 3

/-- The level that is told when more is asked for this many times. -/
def ofVerbosity : Nat → Severity
  | 0 => .warn
  | 1 => .info
  | 2 => .debug
  | _ => .trace

end Severity

end HotkeyTree
