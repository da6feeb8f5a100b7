import Resumable.Diagnostic.Bag
import Resumable.Form.Read
import Resumable.Form.Write
import Resumable.Stack
import Resumable.Trace.Tracer
import Resumable.Ty.Capability
import Resumable.Ty.Set
import Resumable.Version

/-!
# `Form.Inspect`: small parts by script

Stacks, sets of types, groups, capabilities of types, names of enumerations, bags of diagnostics and the
version, each by a list of steps or arguments.
-/

namespace Resumable

namespace Form

/-! ### Stacks -/

/-- A stack as a form. -/
def ofStack (h : StackHeap) (s : StackRef) : Form :=
  .record [("slice", .list ((h.elems s).map .num)), ("len", .nat (h.size s)),
    ("empty", .bool (h.size s == 0))]

/-- The stacks of a script by name. -/
structure StackScript where
  heap : StackHeap := {}
  names : List (String × StackRef) := []

/-- The stack with a name; unknown names mean the empty stack. -/
def StackScript.find (s : StackScript) (name : String) : StackRef :=
  ((s.names.lookup name).getD none)

/-- Names a stack and tells about it. -/
def StackScript.store (s : StackScript) (heap : StackHeap) (dst : String) (r : StackRef) :
    Form × StackScript :=
  (ofStack heap r, ⟨heap, (dst, r) :: s.names⟩)

/-- One step of a script over stacks. -/
def stackStep (s : StackScript) (step : Form) : Form × StackScript :=
  let dst := (step.nth 1).asText
  let src := s.find (step.nth 2).asText
  let arg := (step.nth 3).asInt
  let panic (what : String) : Form :=
    .record [("error", .text "panic"), ("message", .text ("adt: " ++ what ++ " of empty stack"))]
  match step.head with
  | "push" =>
    let (r, heap) := s.heap.push src arg
    s.store heap dst r
  | "pop" =>
    match s.heap.pop? src with
    | some r => s.store s.heap dst r
    | none => (panic "pop", s)
  | "popto" => s.store s.heap dst (s.heap.popTo src arg.toNat)
  | "zero" =>
    let (r, heap) := s.heap.add ⟨0, none, 0⟩
    s.store heap dst r
  | "peek" =>
    match s.heap.peek? src with
    | some v => (.num v, s)
    | none => (panic "peek", s)
  | "peekdef" => (.num ((s.heap.peek? src).getD 0), s)
  | "take" => (.list (((s.heap.elems src).take arg.toNat).map .num), s)
  | "same" => (.bool (src == s.find dst), s)
  | _ => (.null, s)

/-- Runs steps that answer one by one. -/
def answers (step : σ → Form → Form × σ) (start : σ) (steps : List Form) : Form :=
  .list (steps.foldl (fun (out, s) f =>
    let (a, s) := step s f
    (out ++ [a], s)) (([] : List Form), start)).1

/-- A script over stacks. -/
def stackForm (f : Form) : Form := answers stackStep {} (f.field "steps").elems

/-- Groups of neighbours whose quotients by a number are the same. -/
def groupForm (f : Form) : Form :=
  let d := (f.field "div").asInt
  let groups := ((f.field "items").elems.map asInt).splitBy fun a b => a.tdiv d == b.tdiv d
  .list (groups.map fun g => .list (g.map .num))

/-! ### Names of enumerations -/

/-- The name of the member with a number. -/
def nameOf (all : List α) (text : α → String) (unknown : String) (n : Nat) : Form :=
  .text ((all[n]?.map text).getD unknown)

/-- What is told about the member of an enumeration with a number. -/
def enumFields (what : String) (n : Nat) : List (String × Form) :=
  let str (f : Form) : List (String × Form) := [("str", f)]
  match what with
  | "AssignOp" =>
    let op := AssignOp.all[n]?
    let binary := op.bind AssignOp.binary?
    str (nameOf AssignOp.all AssignOp.text AssignOp.unknown n) ++
      [("binary", .text (binary.getD .add).text), ("compound", .bool binary.isSome),
       ("inc", .bool (op.any AssignOp.isIncrement))]
  | "BinaryOp" =>
    let op := BinaryOp.all[n]?
    str (nameOf BinaryOp.all BinaryOp.text BinaryOp.unknown n) ++
      [("cmp", .bool (op.any BinaryOp.isComparison)), ("short", .bool (op.any BinaryOp.isShortCircuit))]
  | "UnaryOp" => str (nameOf UnaryOp.all UnaryOp.text UnaryOp.unknown n)
  | "GotoKind" => str (nameOf GotoKind.all GotoKind.text GotoKind.plain.text n)
  | "LambdaKind" => str (nameOf LambdaKind.all LambdaKind.text LambdaKind.plain.text n)
  | "ExprKind" => str (nameOf ExprKind.all ExprKind.text ExprKind.unknown n)
  | "IterForm" => str (nameOf IterForm.every IterForm.text IterForm.unknown n)
  | "Severity" => str (.text (Severity.ofRank n).text)
  | "Code" =>
    let c : Code := ⟨n⟩
    [("id", .text c.id), ("title", .text c.title), ("str", .text c.text)]
  | "traceKind" => str (.text (Trace.Kind.text ⟨n⟩))
  | "traceScope" => str (.text (Trace.Scope.text ⟨n⟩))
  | "traceMode" => str (.text (Trace.Mode.text ⟨n⟩))
  | "traceLevel" =>
    let l : Trace.Level := ⟨n⟩
    str (.text l.text) ++ [("emits", .list ((List.range 6).map fun s => .bool (l.admits ⟨s⟩)))]
  | _ => []

/-- The version as a form. -/
def versionForm (f : Form) : Form :=
  let v : Version := ⟨(f.field "version").asText, (f.field "commit").asText⟩
  .record [("fingerprint", .text v.fingerprint),
    ("colored", .text (v.colored (f.field "color").asBool))]

/-! ### Diagnostics -/

/-- Reads a diagnostic from the arguments of a step. -/
def readDiagnostic (step : Form) : Diagnostic where
  severity := Severity.ofRank (step.nth 1).asNat
  code := ⟨(step.nth 2).asNat⟩
  primary := ⟨(step.nth 3).asText, (step.nth 4).asNat⟩
  message := (step.nth 5).asText
  notes := (step.nth 6).elems.map fun n =>
    ⟨⟨(n.nth 0).asText, (n.nth 1).asNat⟩, (n.nth 2).asText⟩

/-- How a script reports: whether repetitions are dropped, and whether reports reach the bag. -/
structure DiagnosticRoute where
  unique : Bool
  reaches : Bool

/-- One step of a script over a bag. -/
def diagnosticStep (route : DiagnosticRoute) (r : Reporter) (step : Form) : Form × Reporter :=
  let d := readDiagnostic step
  let blank : Diagnostic := ⟨.info, ⟨0⟩, ⟨"", 0⟩, "", []⟩
  let code : Code := ⟨(step.nth 1).asNat⟩
  let report : Form × Reporter :=
    let r := if !route.reaches then r
      else if route.unique then r.report d
      else { r with bag := (r.bag.add d).2 }
    (.list [.nat r.bag.items.length, .text d.text], r)
  match step.head with
  | "add" =>
    let (ok, bag) := r.bag.add d
    (.list [.bool ok, .text d.text], { r with bag })
  | "report" | "emit2" => report
  | "nilbuilder" => (.text blank.text, r)
  | "nilerror" => (.bool true, r)
  | "sort" =>
    let bag := r.bag.sort
    (.list (bag.items.map ofDiagnostic), { r with bag })
  | "items" => (.list (r.bag.items.map ofDiagnostic), r)
  | "format" => (.text (formatShort r.bag.items (step.nth 1).asBool), r)
  | "error" => (if r.bag.hasErrors then .text (failureText r.bag.items) else .null, r)
  | "has" => (.bool (r.bag.hasErrors && (r.bag.first? code).isSome), r)
  | "first" =>
    let d? := r.bag.first? code
    (.list [.bool d?.isSome, .text (d?.getD blank).text], r)
  | "state" =>
    (.record [("cap", .nat r.bag.max), ("len", .nat r.bag.items.length),
      ("errors", .bool r.bag.hasErrors), ("warnings", .bool r.bag.hasWarnings)], r)
  | _ => (.null, r)

/-- A script over a bag of diagnostics. -/
def diagnosticForm (f : Form) : Form :=
  let route : DiagnosticRoute := ⟨(f.field "dedup").asBool,
    !(f.field "nilbag").asBool && !(f.field "nildedup").asBool⟩
  answers (diagnosticStep route) (.ofBag (Bag.empty (f.field "max").asInt)) (f.field "steps").elems

/-! ### Types -/

/-- What can be done with a type. -/
def capabilityFields (t : Ty) (methods : List String) : List (String × Form) :=
  let type (t : Ty) : Form := .text t.label
  let optional (t : Option Ty) : Form := (t.map type).getD .null
  (t.awaitable?.map fun a => ("awaitable", .record [("type", type a.type), ("awaiter", type a.awaiter),
    ("result", optional a.result), ("fallible", .bool a.fallible), ("configure", optional a.configure),
    ("cached", .bool true)])).toList ++
  (t.iterable?.map fun i => ("iterable", .record [("type", type i.type), ("elem", type i.elem),
    ("fallible", .bool i.fallible), ("via", .text i.via.text)])).toList ++
  (methods.filterMap fun m => (t.method? m).map fun s => ("method " ++ m, type s)) ++
  (if t.kind != .func then []
   else match t.funcResult with
    | .ok (r, fallible) => [("func", .list [type r, .bool fallible])]
    | .error e => [("func", .text e.message)]) ++
  [("void", .bool t.isVoid)]

end Form

namespace Work

open Form

/-- What can be done with types. -/
def capabilityForm (f : Form) : Work Form := do
  let methods := (f.field "methods").elems.map asText
  let out ← (f.field "types").elems.mapM fun t => do
    if t.isNull then return Form.record []
    return .record (capabilityFields (← readType t) methods)
  return .list out

/-- A script over a set of types. -/
def typeSetForm (f : Form) : Work Form := do
  let mut s : TypeSet := {}
  let mut out : List Form := []
  for step in (f.field "steps").elems do
    let t ← readType (step.nth 1)
    let mut result := s.contains t
    if step.head == "add" then
      let (added, next) := s.add t
      result := added
      s := next
    out := out ++ [.list [.bool result, .nat s.types.length, .list (s.types.map fun t => .text t.label)]]
  return .list out

/-- Names of enumerations, or of variables and labels made without one. -/
def enumForm (f : Form) : Work Form := do
  match (f.field "what").asText with
  | "varNames" =>
    let v ← build (Build.newVar "" .int)
    let l ← build (Build.newLabel "l" .void)
    return .record [("nilvar", .text "<nil>"), ("nillabel", .text "<nil>"), ("anon", .text v.text),
      ("label", .text l.text), ("void", .text Ty.void.text)]
  | what => return .list ((f.field "ns").elems.map fun n => .record (enumFields what n.asNat))

end Work

end Resumable
