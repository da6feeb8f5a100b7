import Resumable.Diagnostic.Code

/-!
# `Diagnostic`: what a pass reports

A diagnostic has a severity, a code, a place inside a named lambda, a message and notes. Only errors
make an operation fail.
-/

namespace Resumable

/-- How bad a diagnostic is. -/
inductive Severity where
  | info | warning | error
  deriving DecidableEq, Repr, Inhabited

namespace Severity

def text : Severity → String
  | .info => "info" | .warning => "warning" | .error => "error"

/-- The rank that orders severities. -/
def rank : Severity → Nat
  | .info => 0 | .warning => 1 | .error => 2

/-- The severity with a rank; unknown ranks are read as the mildest one. -/
def ofRank : Nat → Severity
  | 1 => .warning | 2 => .error | _ => .info

end Severity

/-- A node inside a named lambda; node 0 stands for the lambda as a whole. -/
structure Location where
  lambda : String
  node : Nat
  deriving DecidableEq, Repr, Inhabited

def Location.text (l : Location) : String :=
  let name := if l.lambda.isEmpty then "<lambda>" else l.lambda
  if l.node == 0 then name else name ++ "#" ++ toString l.node

/-- A remark that goes with a diagnostic. -/
structure Note where
  loc : Location
  msg : String
  deriving DecidableEq, Repr, Inhabited

structure Diagnostic where
  severity : Severity
  code : Code
  primary : Location
  message : String
  notes : List Note
  deriving DecidableEq, Repr, Inhabited

namespace Diagnostic

def text (d : Diagnostic) : String :=
  d.severity.text ++ " " ++ d.code.id ++ " " ++ d.primary.text ++ " " ++ d.message

def isError (d : Diagnostic) : Bool := d.severity == .error

/-- The order of presentation: by lambda, node and, for equal places, code. -/
def before (a b : Diagnostic) : Bool :=
  if a.primary.lambda != b.primary.lambda then a.primary.lambda < b.primary.lambda
  else if a.primary.node != b.primary.node then a.primary.node < b.primary.node
  else a.code.number < b.code.number

/-- The order of a sorted bag: as `before`, but at one place the more severe first. -/
def sortedBefore (a b : Diagnostic) : Bool :=
  if a.primary.lambda != b.primary.lambda then a.primary.lambda < b.primary.lambda
  else if a.primary.node != b.primary.node then a.primary.node < b.primary.node
  else if a.severity != b.severity then a.severity.rank > b.severity.rank
  else a.code.number < b.code.number

end Diagnostic

end Resumable
