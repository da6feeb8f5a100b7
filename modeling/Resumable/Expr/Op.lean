/-!
# `Expr.Op`: the operators and forms of expression nodes

Every enumeration knows its written forms. Its members are numbered in declaration order, and the
written form of a number without a member is given as well, because reports show it.
-/

namespace Resumable

/-- Binary operators. -/
inductive BinaryOp where
  | add | sub | mul | div | mod | and | or | xor | shl | shr
  | equal | notEqual | less | lessEqual | greater | greaterEqual
  | andAlso | orElse
  deriving DecidableEq, Repr, Inhabited

namespace BinaryOp

def all : List BinaryOp :=
  [.add, .sub, .mul, .div, .mod, .and, .or, .xor, .shl, .shr, .equal, .notEqual, .less, .lessEqual,
    .greater, .greaterEqual, .andAlso, .orElse]

def text : BinaryOp → String
  | .add => "+" | .sub => "-" | .mul => "*" | .div => "/" | .mod => "%" | .and => "&" | .or => "|"
  | .xor => "^" | .shl => "<<" | .shr => ">>" | .equal => "==" | .notEqual => "!=" | .less => "<"
  | .lessEqual => "<=" | .greater => ">" | .greaterEqual => ">=" | .andAlso => "&&" | .orElse => "||"

/-- The written form of a number without a member. -/
def unknown : String := "?"

def ofText? (s : String) : Option BinaryOp := all.find? (·.text == s)

/-- Operators that make a truth value of two operands. -/
def isComparison : BinaryOp → Bool
  | .equal | .notEqual | .less | .lessEqual | .greater | .greaterEqual => true
  | _ => false

/-- Operators that may skip their right operand. -/
def isShortCircuit : BinaryOp → Bool
  | .andAlso | .orElse => true
  | _ => false

def isShift : BinaryOp → Bool
  | .shl | .shr => true
  | _ => false

end BinaryOp

/-- Assignment forms. -/
inductive AssignOp where
  | plain | add | sub | mul | div | mod | and | or | xor | shl | shr
  | preIncrement | preDecrement | postIncrement | postDecrement
  deriving DecidableEq, Repr, Inhabited

namespace AssignOp

def all : List AssignOp :=
  [.plain, .add, .sub, .mul, .div, .mod, .and, .or, .xor, .shl, .shr, .preIncrement, .preDecrement,
    .postIncrement, .postDecrement]

def text : AssignOp → String
  | .plain => "=" | .add => "+=" | .sub => "-=" | .mul => "*=" | .div => "/=" | .mod => "%="
  | .and => "&=" | .or => "|=" | .xor => "^=" | .shl => "<<=" | .shr => ">>="
  | .preIncrement => "++pre" | .preDecrement => "--pre"
  | .postIncrement => "post++" | .postDecrement => "post--"

/-- The written form of a number without a member. -/
def unknown : String := "?="

def ofText? (s : String) : Option AssignOp := all.find? (·.text == s)

/-- The arithmetic a compound form applies. -/
def binary? : AssignOp → Option BinaryOp
  | .plain => none
  | .add | .preIncrement | .postIncrement => some .add
  | .sub | .preDecrement | .postDecrement => some .sub
  | .mul => some .mul | .div => some .div | .mod => some .mod | .and => some .and | .or => some .or
  | .xor => some .xor | .shl => some .shl | .shr => some .shr

/-- The forms without a right-hand side. -/
def isIncrement : AssignOp → Bool
  | .preIncrement | .preDecrement | .postIncrement | .postDecrement => true
  | _ => false

/-- The forms whose value is the one before the store. -/
def isPost : AssignOp → Bool
  | .postIncrement | .postDecrement => true
  | _ => false

end AssignOp

/-- Unary operators. -/
inductive UnaryOp where
  | not | negate | plus | convert
  deriving DecidableEq, Repr, Inhabited

namespace UnaryOp

def all : List UnaryOp := [.not, .negate, .plus, .convert]

def text : UnaryOp → String
  | .not => "!" | .negate => "-" | .plus => "+" | .convert => "convert"

/-- The written form of a number without a member. -/
def unknown : String := "?"

def ofText? (s : String) : Option UnaryOp := all.find? (·.text == s)

end UnaryOp

/-- The source forms of a jump. -/
inductive GotoKind where
  | plain | brk | cont | ret
  deriving DecidableEq, Repr, Inhabited

namespace GotoKind

def all : List GotoKind := [.plain, .brk, .cont, .ret]

def text : GotoKind → String
  | .plain => "goto" | .brk => "break" | .cont => "continue" | .ret => "return"

end GotoKind

/-- How a lambda's body is run. -/
inductive LambdaKind where
  /-- An ordinary closure. -/
  | plain
  /-- Returns a completion handle and may await. -/
  | async
  /-- Returns a lazy sequence and may yield. -/
  | iterator
  deriving DecidableEq, Repr, Inhabited

namespace LambdaKind

def all : List LambdaKind := [.plain, .async, .iterator]

def text : LambdaKind → String
  | .plain => "plain" | .async => "async" | .iterator => "iterator"

end LambdaKind

/-- The kinds of nodes. -/
inductive ExprKind where
  | constant | default | variable | block | assign | binary | unary | throw | typeIs | conditional
  | switch | loop | try | goto | label | call | methodCall | field | lambda | await | yield
  deriving DecidableEq, Repr, Inhabited

namespace ExprKind

def all : List ExprKind :=
  [.constant, .default, .variable, .block, .assign, .binary, .unary, .throw, .typeIs, .conditional,
    .switch, .loop, .try, .goto, .label, .call, .methodCall, .field, .lambda, .await, .yield]

def text : ExprKind → String
  | .constant => "Constant" | .default => "Default" | .variable => "Variable" | .block => "Block"
  | .assign => "Assign" | .binary => "Binary" | .unary => "Unary" | .throw => "Throw"
  | .typeIs => "TypeIs" | .conditional => "Conditional" | .switch => "Switch" | .loop => "Loop"
  | .try => "Try" | .goto => "Goto" | .label => "Label" | .call => "Call"
  | .methodCall => "MethodCall" | .field => "Field" | .lambda => "Lambda" | .await => "Await"
  | .yield => "Yield"

/-- The written form of a number without a member. -/
def unknown : String := "Unknown"

end ExprKind

end Resumable
