import Resumable.Run.World

/-!
# `Run.Show`: messages of errors and the plain text of values

An error's message depends on its type and on what is stored behind its pointer. `World.textOf` is the
text of any value inside a sentence.
-/

namespace Resumable

namespace Value

/-- The bytes of a text value. -/
def asBytes : Value → Bytes
  | .text _ s => s
  | _ => []

end Value

namespace World

/-- The value behind an address. -/
def valueAt (w : World) (a : Nat) : Value :=
  match w.store[a]? with
  | some (.value v) => v
  | _ => .null .any

/-- The fields of the struct behind an address. -/
def fieldsAt (w : World) (a : Nat) : List Value :=
  match w.valueAt a with
  | .struct _ fs => fs
  | _ => []

/-- The message of an error; none when it is read through nil. `depth` bounds the nesting of joined
errors. -/
def messageAt (w : World) : Nat → Value → Option Bytes
  | 0, _ => none
  | depth + 1, v =>
    let text (front : String) (fs : List Value) : Option Bytes :=
      some (Bytes.ofString front ++ (fs.headD (.null .any)).asBytes)
    match v with
    | .box _ (some x) => messageAt w depth x
    | .refusal r => some (Bytes.ofString r.message)
    | .struct (.named .valErr) fs => text "valerr: " fs
    | .slice (.named .sliceErr) es => some (Bytes.ofString ("sliceerr " ++ toString es.length))
    | .null (.named .sliceErr) => some (Bytes.ofString "sliceerr 0")
    | .pointer (.pointer (.named n)) a =>
      let fs := w.fieldsAt a
      match n with
      | .invalidOperation => text "invalid operation: " fs
      | .argumentError => text "bad argument: " fs
      | .runtimeError => text "runtime error: " fs
      | .valErr => text "valerr: " fs
      | .invariantError =>
        match fs with
        | .int _ k :: _ =>
          some (Bytes.ofString ("asyncrt: state machine resumed in unknown state " ++ toString k))
        | _ => none
      | .joinedError =>
        match fs with
        | .slice _ es :: _ =>
          (es.mapM (messageAt w depth)).map fun ms => ([10] : Bytes).intercalate ms
        | _ => none
      | .sliceErr =>
        match w.valueAt a with
        | .slice _ es => some (Bytes.ofString ("sliceerr " ++ toString es.length))
        | _ => some (Bytes.ofString "sliceerr 0")
      | _ => text "" fs
    | _ => none

/-- The message of an error; none when it is read through nil. -/
def message? (w : World) (v : Value) : Option Bytes := w.messageAt 32 v

/-- Whether every field of a struct of this type may be looked at by name. -/
def opensField (t : Ty) (i : Nat) : Bool := ((t.fields[i]?).map (·.exported)).getD true

/-- The text of a value; `top` marks the outermost one, whose pointer is followed, and `open` values
whose own text may be asked for. -/
def showAt (w : World) : Nat → Bool → Bool → Value → Bytes
  | 0, _, _, _ => []
  | depth + 1, top, isOpen, v =>
    let t := v.typeOf
    let str (s : String) : Bytes := Bytes.ofString s
    let list (l r : String) (es : List Bytes) : Bytes :=
      str l ++ ([32] : Bytes).intercalate es ++ str r
    let own : Option Bytes :=
      if !isOpen then none
      else if t.implements .error && !t.isInterface then
        some ((w.message? v).getD (str "<nil>"))
      else match v with
        | .type u => some (str u.text)
        | .int (.named .code) n => some (str (Code.text ⟨n.toNat⟩))
        | .int (.named .exprKind) n =>
          some (str (((ExprKind.all[n.toNat]?).map ExprKind.text).getD ExprKind.unknown))
        | _ => none
    match own with
    | some s => s
    | none =>
      match v with
      | .bool _ b => str (if b then "true" else "false")
      | .int _ n => str (toString n)
      | .float t x => str (if t.kind == .float32 then Decimal.ofSingle x else Decimal.ofDouble x)
      | .complex t a b =>
        str (if t.kind == .complex64 then Decimal.ofComplexSingle a b else Decimal.ofComplex a b)
      | .text _ s => s
      | .struct t fs =>
        list "\x7b" "\x7d" (fs.zipIdx.map fun (f, i) =>
          showAt w depth false (isOpen && opensField t i) f)
      | .slice _ es | .array _ es => list "[" "]" (es.map (showAt w depth false isOpen))
      | .box _ none => str "<nil>"
      | .box _ (some x) => showAt w depth false isOpen x
      | .null t =>
        if t.kind == .slice then str "[]"
        else if t.kind == .map then str "map[]"
        else str "<nil>"
      | .pointer (.pointer e) a =>
        if top && e.kind == .struct then
          str "&" ++ showAt w depth false isOpen ((w.valueAt a).retype e)
        else str ("0xc" ++ toString a)
      | .pointer _ a => str ("0xc" ++ toString a)
      | .func _ _ => str "0x1"
      | .type u => str u.text
      | .refusal r => str r.message

/-- The plain text of a value, or of no value. -/
def textOf (w : World) (v : Option Value) : Bytes :=
  match v.bind Value.content with
  | some x => w.showAt 16 true true x
  | none => Bytes.ofString "<nil>"

end World

namespace Run

/-- The message of an error; reading it through nil panics. -/
def message (v : Value) : Run Bytes := do
  match (← get).message? v with
  | some s => return s
  | none => panicNil

/-- A new error that joins others. -/
def joinErrors (es : List Value) : Run Value := do
  let a ← alloc (.value (.struct (.named .joinedError) [.slice (.slice .error) es]))
  return .pointer (.pointer (.named .joinedError)) a

end Run

end Resumable
