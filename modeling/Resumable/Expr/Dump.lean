import Resumable.Expr.Basic
import Resumable.Text.Blank

/-!
# `Expr.Dump`: the indented rendering of trees

A node is one line, followed by the lines of its operands, indented by two spaces. Operands with a role
of their own stand under a line that names it. How a constant is written is left to the caller, because
it may depend on what is stored behind a pointer.
-/

namespace Resumable.Expr

/-- Variables with their types. -/
def varsText (vs : List Var) : String :=
  ", ".intercalate (vs.map fun v => v.text ++ " " ++ v.type.label)

/-- Indents lines. -/
def indent (ls : List String) : List String := ls.map ("  " ++ ·)

/-- The lines of an operand as one trimmed text. -/
def inOneText (ls : List String) : String := Text.trim ("\n".intercalate ls)

/-- Lines under the cases of a switch, taken from the lines of its operands in order; the rest is
returned. -/
def caseLines : List (List Expr × Expr) → List (List String) → List String × List (List String)
  | [], parts => ([], parts)
  | (tests, _) :: cases, parts =>
    let shown := (parts.take tests.length).map inOneText
    let rest := parts.drop tests.length
    let (more, rest') := caseLines cases (rest.drop 1)
    (("case " ++ ", ".intercalate shown ++ ":") :: indent (rest.headD []) ++ more, rest')

/-- Lines under the handlers of a protected body. -/
def handlerLines : List (Handler Expr) → List (List String) → List String × List (List String)
  | [], parts => ([], parts)
  | h :: hs, parts =>
    let filter := parts.headD []
    let body := (parts.drop 1).headD []
    let (more, rest) := handlerLines hs (parts.drop 2)
    (("catch " ++ h.test.label ++ " " ++ Var.textOf h.var) ::
      (if h.filter.isAbsent then [] else "when" :: indent filter) ++ indent body ++ more, rest)

/-- The lines of a node from those of its operands. -/
def layout (constant : Option Value → String) (t : Ty) (d : Data Expr) (parts : List (List String)) :
    List String :=
  let part (i : Nat) : List String := indent (parts.getD i [])
  let all : List String := parts.flatMap indent
  /- an operand that is shown only when it is there -/
  let optional (x : Expr) (ls : List String) : List String := if x.isAbsent then [] else ls
  match d with
  | .constant v => ["const " ++ constant v ++ " : " ++ t.label]
  | .default => ["default(" ++ t.label ++ ")"]
  | .var v => [v.text]
  | .block vs _ => ("block : " ++ t.label ++ " [" ++ varsText vs ++ "] \x7b") :: all ++ ["\x7d"]
  | .assign op target value =>
    match target.asVar? with
    | some v => (v.text ++ " " ++ op.text) :: optional value (part 0)
    | none => ("assign " ++ op.text) :: part 0 ++ optional value (part 1)
  | .binary op _ _ _ => (op.text ++ " : " ++ t.label) :: all
  | .unary op _ _ => (if op == .convert then "convert -> " ++ t.label else op.text) :: all
  | .throw x => if x.isAbsent then ["rethrow"] else "throw" :: all
  | .typeIs _ test => ("is " ++ test.label) :: all
  | .conditional _ _ _ =>
    ("if : " ++ t.label) :: part 0 ++ "then" :: part 1 ++ "else" :: part 2
  | .switch _ cases default _ =>
    let (middle, rest) := caseLines cases (parts.drop 1)
    ("switch : " ++ t.label) :: part 0 ++ middle ++
      optional default ("default:" :: indent (rest.headD []))
  | .loop _ brk cont =>
    ("loop break=" ++ Label.textOf brk ++ " continue=" ++ Label.textOf cont) :: all
  | .protect _ hs fin fault =>
    let (middle, rest) := handlerLines hs (parts.drop 1)
    ("try : " ++ t.label) :: part 0 ++ middle ++
      optional fault ("fault" :: indent (rest.getD 1 [])) ++
      optional fin ("finally" :: indent (rest.getD 0 []))
  | .goto kind l x => (kind.text ++ " " ++ l.text) :: optional x all
  | .label l x => (l.text ++ ":") :: optional x all
  | .call _ _ => ("call : " ++ t.label) :: all
  | .methodCall _ name _ => ("." ++ name ++ " : " ++ t.label) :: all
  | .field _ name => ("." ++ name) :: all
  | .lambda name ps _ kind _ =>
    (kind.text ++ " lambda " ++ name ++ "(" ++ varsText ps ++ ") " ++ t.label) :: all
  | .await _ configured =>
    match configured with
    | some b => ("await(configure=" ++ (if b then "true" else "false") ++ ") : " ++ t.label) :: all
    | none => ("await : " ++ t.label) :: all
  | .yield _ => "yield" :: all

/-- The lines of a tree. -/
def dumpLines (constant : Option Value → String) (e : Expr) : List String :=
  match e with
  | .absent => ["<nil>"]
  | .node _ _ t d =>
    layout constant t d ((operands d).attach.map fun x => dumpLines constant x.1)
  termination_by sizeOf e
  decreasing_by
    have := sizeOf_lt_of_mem_operands x.2
    simp only [Expr.node.sizeOf_spec]
    omega

/-- The rendering of a tree, each line ended. -/
def dump (constant : Option Value → String) (e : Expr) : String :=
  String.join ((e.dumpLines constant).map (· ++ "\n"))

end Resumable.Expr
