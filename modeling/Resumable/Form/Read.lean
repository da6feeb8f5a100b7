import Resumable.Form.Basic
import Resumable.Session
import Resumable.Ty.Text

/-!
# `Form.Read`: values and trees from forms

A value form is a list of a type or word and its payload; an expression form is a list of a constructor
and its operands. Operands are built from left to right before the node they belong to, so that the
numbers of nodes follow the written order.
-/

namespace Resumable.Form

open Work

/-- Reads a type. -/
def readType (f : Form) : Work Ty :=
  match Ty.parse? f.asText with
  | some t => pure t
  | none => unread ("type " ++ f.asText)

/-- Reads a type; nothing means void. -/
def readTypeOrVoid (f : Form) : Work Ty := if f.isNull then pure .void else readType f

/-- Reads the name of a native function. -/
def readNative (f : Form) : Work Native :=
  match Native.ofText? f.asText with
  | some n => pure n
  | none => unread ("function " ++ f.asText)

/-- The number that hexadecimal digits after `0x` stand for. -/
def hexNat (s : String) : Nat :=
  (s.toList.drop 2).foldl (fun n c => 16 * n + (Bytes.hexValue? c).getD 0) 0

/-- The number with the given bits, in eight digits or sixteen. -/
def floatOfBits (s : String) : Float :=
  if s.length == 10 then (Float32.ofBits (hexNat s).toUInt32).toFloat
  else Float.ofBits (hexNat s).toUInt64

/-- The error with a name; the same name gives the same error. -/
def namedError (name : String) : Work Value := do
  if name == Sentinel.stop.text then return Sentinel.stop.error
  match (← get).errors.lookup name with
  | some v => return v
  | none =>
    let v ← run (Run.newError name)
    modify fun s => { s with errors := (name, v) :: s.errors }
    return v

/-- Reads the name of an error, or nothing. -/
def readError? (f : Form) : Work (Option Value) :=
  if f.isNull then return none else some <$> namedError f.asText

/-- The shared object with a key, made on first use. -/
def sharedObject (kind key : String) (make : Run Value) : Work Value := do
  match (← get).objects.lookup (kind, key) with
  | some v => return v
  | none =>
    let v ← run make
    modify fun s => { s with objects := ((kind, key), v) :: s.objects }
    return v

def intValue (f : Form) : Value := .ofInt f.asInt

def textValue (f : Form) : Value := .ofText f.asText

/-- Reads a value form; `depth` bounds the nesting. -/
def readValueAt : Nat → Form → Work (Option Value)
  | 0, _ => unread "value"
  | depth + 1, f => do
    let a := f.nth 1
    let b := f.nth 2
    let shared (n : TypeName) : Work (Option Value) :=
      some <$> sharedObject n.text a.asText (Run.newText n (Bytes.ofString a.asText))
    match f.head with
    | "nil" => return none
    | "zero" => return (← readType a).zero.content
    | "err" => return some (← namedError a.asText)
    | "string" => return some (textValue a)
    | "main.MyStr" => return some ((textValue a).retype (.named .myStr))
    | "bool" => return some (.ofBool a.asBool)
    | "float64" => return some (.float (.scalar .float64) (floatOfBits a.asText))
    | "float32" => return some (.float (.scalar .float32) (floatOfBits a.asText))
    | "complex128" =>
      return some (.complex (.scalar .complex128) (floatOfBits a.asText) (floatOfBits b.asText))
    | "*samples.InvalidOperation" => shared .invalidOperation
    | "*samples.ArgumentError" => shared .argumentError
    | "*eval.RuntimeError" => shared .runtimeError
    | "*asyncrt.InvariantError" =>
      let e ← run (Run.alloc (.value (.struct (.named .invariantError) [intValue a])))
      return some (.pointer (.pointer (.named .invariantError)) e)
    | "main.ValErr" => return some (.struct (.named .valErr) [textValue a])
    | "main.SliceErr" => return some (.slice (.named .sliceErr) (a.elems.map textValue))
    | "main.Point" => return some (Run.pointOf (intValue a) (intValue b))
    | "*main.Point" =>
      some <$> sharedObject "point" a.asText (do
        let p ← Run.alloc (.value (Run.pointOf (intValue b) (intValue (f.nth 3))))
        return .pointer (.pointer (.named .point)) p)
    | "[]int" => return some (.slice (.slice .int) (a.elems.map intValue))
    | "[]interface \x7b\x7d" =>
      let vs ← a.elems.mapM (readValueAt depth)
      return some (.slice (.slice .any) (vs.map Value.ofAny))
    | "[]uint8" =>
      return some (.explode (.slice (.scalar .uint8)) ((Bytes.ofHex? a.asText).getD []))
    | "native" =>
      let n ← readNative a
      let vs ← (f.elems.drop 2).mapM (readValueAt depth)
      let ins := (n.type.signature?.map (·.1)).getD []
      let outs ← run (do
        let args ← (vs.zip ins).mapM fun (v, t) => return (← Run.convertTo v t).getD t.zero
        calls.call (.ofNative n) args)
      return outs.head?.bind Value.content
    | word =>
      let t ← readType (.text word)
      if t.kind.integer?.isSome then return some (.int t a.asInt) else return t.zero.content

/-- Reads a value form. -/
def readValue (f : Form) : Work (Option Value) := readValueAt f.depth f

/-- Brings the declared variables and labels into the session, in order. -/
def declareNames (f : Form) : Work Unit := do
  for v in (f.field "vars").elems do
    let name := if (v.nth 2).isNull then v.head else (v.nth 2).asText
    let x ← build (Build.newVar name (← readType (v.nth 1)))
    modify fun s => { s with vars := (v.head, x) :: s.vars }
  for l in (f.field "labels").elems do
    let x ← build (Build.newLabel l.head (← readTypeOrVoid (l.nth 1)))
    modify fun s => { s with labels := (l.head, x) :: s.labels }

def readVar (f : Form) : Work Var := do
  match (← get).vars.lookup f.asText with
  | some v => return v
  | none => unread ("variable " ++ f.asText)

def readVar? (f : Form) : Work (Option Var) := if f.isNull then return none else some <$> readVar f

def readLabel (f : Form) : Work Label := do
  match (← get).labels.lookup f.asText with
  | some l => return l
  | none => unread ("label " ++ f.asText)

def readLabel? (f : Form) : Work (Option Label) :=
  if f.isNull then return none else some <$> readLabel f

/-- Reads one of a list of words. -/
def readWord (find : String → Option α) (f : Form) : Work α :=
  match find f.asText with
  | some a => pure a
  | none => unread ("word " ++ f.asText)

/-- A protected body whose last block is added after the node was made. -/
def addFault (e fault : Expr) : Expr :=
  match e with
  | .node i r t (.protect body hs fin _) => .node i r t (.protect body hs fin fault)
  | e => e

/-- Reads an expression form; `depth` bounds the nesting. -/
def readExprAt : Nat → Form → Work Expr
  | 0, _ => unread "expression"
  | depth + 1, f => do
    if f.isNull then return .absent
    let a := f.nth 1
    let b := f.nth 2
    let c := f.nth 3
    let d := f.nth 4
    let expr := readExprAt depth
    let exprs (fs : List Form) : Work (List Expr) := fs.mapM expr
    let vars (f : Form) : Work (List Var) := f.elems.mapM readVar
    let cases (f : Form) : Work (List (List Expr × Expr)) :=
      f.elems.mapM fun k => do
        let tests ← exprs (k.nth 0).elems
        return (tests, ← expr (k.nth 1))
    let handlers (f : Form) : Work (List (Handler Expr)) :=
      f.elems.mapM fun h => do
        let t ← readTypeOrVoid (h.nth 0)
        let v ← readVar? (h.nth 1)
        let filter ← expr (h.nth 2)
        return ⟨t, v, filter, ← expr (h.nth 3)⟩
    match f.head with
    | "const" => build (Build.const (← readValue a))
    | "constof" => let v ← readValue a; build (Build.constOf v (← readTypeOrVoid b))
    | "fn" => build (Build.const (some (.ofNative (← readNative a))))
    | "default" => build (Build.default (← readTypeOrVoid a))
    | "empty" => build Build.empty
    | "ref" => build (Build.ref (← readVar a))
    | "block" => let vs ← vars a; build (Build.block vs (← exprs b.elems))
    | "tblock" =>
      let t ← readTypeOrVoid a
      let vs ← vars b
      build (Build.typedBlock t vs (← exprs c.elems))
    | "assign" => let x ← expr a; build (Build.assign x (← expr b))
    | "assignop" =>
      let op ← readWord AssignOp.ofText? a
      let x ← expr b
      build (Build.assignWith op x (← expr c))
    | "inc" => let op ← readWord AssignOp.ofText? a; build (Build.increment op (← expr b))
    | "bin" =>
      let op ← readWord BinaryOp.ofText? a
      let x ← expr b
      build (Build.binary op x (← expr c))
    | "binm" =>
      let op ← readWord BinaryOp.ofText? a
      let x ← expr b
      let y ← expr c
      build (Build.binaryMethod op x y (← readNative d))
    | "not" => build (Build.not (← expr a))
    | "neg" => build (Build.negate (← expr a))
    | "un" => let op ← readWord UnaryOp.ofText? a; build (Build.unary op (← expr b) none)
    | "unm" =>
      let op ← readWord UnaryOp.ofText? a
      let x ← expr b
      build (Build.unary op x (some (← readNative c)))
    | "conv" => let x ← expr a; build (Build.convert x (← readTypeOrVoid b))
    | "is" => let x ← expr a; build (Build.typeIs x (← readTypeOrVoid b))
    | "throw" => build (Build.raise (← expr a))
    | "throwas" => let x ← expr a; build (Build.throwAs x (← readTypeOrVoid b))
    | "rethrow" => build Build.rethrow
    | "cond" => let x ← expr a; let y ← expr b; build (Build.condition x y (← expr c))
    | "tcond" =>
      let t ← readTypeOrVoid a
      let x ← expr b
      let y ← expr c
      build (Build.typedCondition t x y (← expr d))
    | "if" => let x ← expr a; build (Build.ifThen x (← expr b))
    | "ifelse" => let x ← expr a; let y ← expr b; build (Build.ifThenElse x y (← expr c))
    | "switch" =>
      let t ← readTypeOrVoid a
      let v ← expr b
      let other ← expr c
      build (Build.switch t v other none (← cases d))
    | "switchw" =>
      let t ← readTypeOrVoid a
      let v ← expr b
      let other ← expr c
      let n ← readNative d
      build (Build.switch t v other (some n) (← cases (f.nth 5)))
    | "loop" => let x ← expr a; build (Build.loop x (← readLabel? b) (← readLabel? c))
    | "try" => let x ← expr a; let hs ← handlers b; build (Build.protect x hs (← expr c) .absent)
    | "tryall" =>
      let x ← expr a
      let hs ← handlers b
      let fin ← expr c
      let fault ← expr d
      return addFault (← build (Build.protect x hs fin .absent)) fault
    | "fault" => let x ← expr a; build (Build.protect x [] .absent (← expr b))
    | "goto" => build (Build.jump .plain (← readLabel a) .absent)
    | "gotov" => let l ← readLabel a; build (Build.jump .plain l (← expr b))
    | "break" => let l ← readLabel a; build (Build.jump .brk l (← expr b))
    | "continue" => build (Build.jump .cont (← readLabel a) .absent)
    | "return" => let l ← readLabel a; build (Build.jump .ret l (← expr b))
    | "mark" => let l ← readLabel a; build (Build.mark l (← expr b))
    | "callf" =>
      let n ← readNative a
      let xs ← exprs (f.elems.drop 2)
      build (Build.callNative n xs)
    | "call" => let g ← expr a; build (Build.call g (← exprs (f.elems.drop 2)))
    | "mcall" =>
      let r ← expr a
      build (Build.methodCall r b.asText (← exprs (f.elems.drop 3)))
    | "field" => build (Build.field (← expr a) b.asText)
    | "lambda" => let ps ← vars c; build (Build.lambda a.asText b.asBool ps (← expr d))
    | "lambdaof" =>
      let t ← readType a
      let kind ← readWord (fun s => LambdaKind.all.find? (·.text == s)) c
      let ps ← vars (f.nth 5)
      build (Build.lambdaOf t b.asText kind d.asBool ps (← expr (f.nth 6)))
    | "async" =>
      let t ← readType b
      let ps ← vars c
      build (Build.asyncLambda a.asText t ps (← expr d))
    | "iter" =>
      let t ← readType b
      let ps ← vars c
      build (Build.iteratorLambda a.asText t ps (← expr d))
    | "await" => build (Build.await (← expr a) none)
    | "awaitc" => build (Build.await (← expr a) (some b.asBool))
    | "yield" => build (Build.yield (← expr a))
    | "withtype" => let x ← expr a; build (Build.withType x (← readTypeOrVoid b))
    | "let" =>
      let x ← expr b
      modify fun s => { s with trees := (a.asText, x) :: s.trees }
      return x
    | "use" =>
      match (← get).trees.lookup a.asText with
      | some x => return x
      | none => unread ("tree " ++ a.asText)
    | word => unread ("form " ++ word)

/-- Reads an expression form. -/
def readExpr (f : Form) : Work Expr := readExprAt f.depth f

/-- Declares the names of a record and reads its tree. -/
def readTree (f : Form) : Work Expr := do
  declareNames f
  readExpr (f.field "expr")

end Resumable.Form
