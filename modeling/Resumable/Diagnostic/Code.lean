/-!
# `Diagnostic.Code`: the numbered causes of diagnostics

A code is a number; its thousands name the family that raises it and give the letters of its written
id.
-/

namespace Resumable

/-- A numbered cause. -/
structure Code where
  number : Nat
  deriving DecidableEq, Repr, Inhabited

namespace Code

/-! ### Usage errors found while lowering -/

def notAwaitable : Code := ⟨1001⟩
def awaitInFilter : Code := ⟨1002⟩
def suspendInPlain : Code := ⟨1003⟩
def yieldInAsync : Code := ⟨1004⟩
def awaitInIterator : Code := ⟨1005⟩
def jumpIntoTry : Code := ⟨1006⟩
def jumpOutOfFinally : Code := ⟨1007⟩
def yieldInFinally : Code := ⟨1008⟩
def undefinedLabel : Code := ⟨1009⟩
def noBackend : Code := ⟨1010⟩
def badIteratorShape : Code := ⟨1011⟩
def notLambda : Code := ⟨1012⟩

/-! ### Findings of the machine checker -/

def duplicateState : Code := ⟨2001⟩
def danglingTarget : Code := ⟨2002⟩
def tryDepth : Code := ⟨2003⟩
def finallyEscapes : Code := ⟨2004⟩
def unreachableState : Code := ⟨2005⟩

/-! ### Failures of the evaluator, and defects of the lowering itself -/

def unloweredSuspend : Code := ⟨3001⟩
def unsupported : Code := ⟨3002⟩
def defect : Code := ⟨9001⟩

/-- `n` in at least four digits. -/
def fourDigits (n : Nat) : String :=
  let s := toString n
  "".pushn '0' (4 - s.length) ++ s

/-- The written id. -/
def id (c : Code) : String :=
  let n := c.number
  if 1000 ≤ n && n < 2000 then "LOW" ++ fourDigits n
  else if 2000 ≤ n && n < 3000 then "CHK" ++ fourDigits n
  else if 3000 ≤ n && n < 4000 then "EVL" ++ fourDigits n
  else if 9000 ≤ n && n < 10000 then "INT" ++ fourDigits n
  else "E0000"

/-- A one-line description of the cause. -/
def title (c : Code) : String :=
  match c.number with
  | 1000 => "Lowering information"
  | 1001 => "Operand of await is not awaitable"
  | 1002 => "Await is not allowed in a catch filter"
  | 1003 => "Suspension point inside a plain lambda"
  | 1004 => "Yield is not allowed in an async body"
  | 1005 => "Await is not allowed in an iterator body"
  | 1006 => "Jump into a protected region"
  | 1007 => "Jump out of a finally block"
  | 1008 => "Yield is not allowed in a finally block"
  | 1009 => "Jump to a label that is never placed"
  | 1010 => "No completion backend for the declared handle type"
  | 1011 => "Unsupported iterator result type"
  | 1012 => "Expression is not an async or iterator lambda"
  | 2000 => "Machine check information"
  | 2001 => "Duplicate state id"
  | 2002 => "Transition to an unknown state"
  | 2003 => "State try context is inconsistent"
  | 2004 => "Finally state without a resume transition"
  | 2005 => "State is never entered"
  | 3000 => "Evaluation information"
  | 3001 => "Suspension point reached the evaluator"
  | 3002 => "Unsupported expression"
  | 9000 => "Internal information"
  | 9001 => "Internal lowering defect"
  | _ => "Unknown error"

/-- The id and the title. -/
def text (c : Code) : String := "[" ++ c.id ++ "]: " ++ c.title

end Code

end Resumable
