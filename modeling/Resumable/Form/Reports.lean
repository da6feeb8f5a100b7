import Resumable.Form.Read
import Resumable.Form.Write
import Resumable.Report.Cache
import Resumable.Report.Table

/-!
# `Form.Reports`: records, timings and the cache

Reads records and timings from forms and writes them, and runs a script over a cache.
-/

namespace Resumable

namespace Form

/-- Reads the text of a field as bytes. -/
def bytesField (f : Form) (key : String) : Bytes := Bytes.ofString (f.field key).asText

/-- Reads a duration by its bits; nothing is 0. -/
def asMillis (f : Form) : Float := if f.isNull then 0 else floatOfBits f.asText

/-- Reads timings. -/
def readTimings (f : Form) : Timings where
  total := (f.field "total").asMillis
  phases := (f.field "phases").elems.map fun p =>
    ⟨Bytes.ofString (p.nth 0).asText, (p.nth 1).asMillis, Bytes.ofString (p.nth 2).asText⟩

/-- Reads a state of a record. -/
def readStateRecord (f : Form) : StateRecord where
  id := (f.nth 0).asNat.toUInt16
  name := Bytes.ofString (f.nth 1).asText
  next := Int32.ofInt (f.nth 2).asInt
  terminal := (f.nth 3).asBool

/-- Reads a machine of a record. -/
def readMachineRecord (f : Form) : MachineRecord where
  name := f.bytesField "name"
  kind := f.bytesField "kind"
  fast := (f.field "fast").asBool
  states := (f.field "states").elems.map readStateRecord

/-- Reads a record; the layout is the current one unless it says otherwise. -/
def readRecord (f : Form) : Record where
  schema := if (f.field "schema").isNull then Record.currentSchema else (f.field "schema").asNat.toUInt16
  name := f.bytesField "name"
  title := f.bytesField "title"
  kind := f.bytesField "kind"
  machines := (f.field "machines").elems.map readMachineRecord
  value := f.bytesField "value"
  err := f.bytesField "err"
  failure := f.bytesField "failure"
  steps := (f.field "steps").asNat.toUInt32
  timings := readTimings (f.field "timings")

/-- A record as a form. -/
def ofRecord (r : Record) : Form :=
  let state (s : StateRecord) : Form :=
    .list [.nat s.id.toNat, ofBytes s.name, .num s.next.toInt, .bool s.terminal]
  let machine (m : MachineRecord) : Form :=
    .record [("name", ofBytes m.name), ("kind", ofBytes m.kind), ("fast", .bool m.fast),
      ("states", .list (m.states.map state))]
  .record [("schema", .nat r.schema.toNat), ("name", ofBytes r.name), ("title", ofBytes r.title),
    ("kind", ofBytes r.kind), ("machines", .list (r.machines.map machine)),
    ("value", ofBytes r.value), ("err", ofBytes r.err), ("failure", ofBytes r.failure),
    ("steps", .nat r.steps.toNat), ("ok", .bool r.isOk), ("count", .nat r.stateCount),
    ("phases", .list (r.timings.phases.map fun p => ofBytes p.name))]

/-- The bits of a duration. -/
def ofMillis (x : Float) : Form := ofFloat (.scalar .float64) x

/-- Timings as a form. -/
def ofTimings (t : Timings) : Form :=
  .record [("total", ofMillis t.total), ("phases", .list (t.phases.map fun p =>
    .list [ofBytes p.name, ofMillis p.ms, ofBytes p.note]))]

/-- Whether two timings are equal as numbers. -/
def sameTimings (a b : Timings) : Bool :=
  a.total == b.total && a.phases.length == b.phases.length &&
    (a.phases.zip b.phases).all fun (p, q) => p.name == q.name && p.ms == q.ms && p.note == q.note

/-- Whether two records are equal. -/
def sameRecord (a b : Record) : Bool :=
  a.schema == b.schema && a.name == b.name && a.title == b.title && a.kind == b.kind &&
    a.machines == b.machines && a.value == b.value && a.err == b.err && a.failure == b.failure &&
    a.steps == b.steps && sameTimings a.timings b.timings

/-- The text of records. -/
def recordTexts (style : Report.Style) (rs : List Record) : List (String × Form) :=
  [("table", ofBytes (Report.table style rs)),
    ("machines", ofBytes (rs.flatMap (Report.machines style)))]

/-- One step of a script over a cache. -/
def cacheStep (rs : List Record) (c : Cache) (step : Form) : Form × Cache :=
  let key := Digest.ofParts [(step.nth 1).asText]
  match step.head with
  | "put" => (.bool true, c.put key (rs.getD (step.nth 2).asNat {}))
  | "get" =>
    match c.get key with
    | .ok (some r) => (.list [.bool true, .bool false, ofRecord r], c)
    | .ok none => (.list [.bool false, .bool false, .null], c)
    | .error _ => (.list [.bool false, .bool true, .null], c)
  | "corrupt" =>
    let (ok, c) := c.overwrite key ((Bytes.ofHex? (step.nth 2).asText).getD [])
    (.bool ok, c)
  | "drop" => (.bool true, c.clear)
  | "files" => (.list (c.names.map .text), c)
  | "nil" => (.list [.bool true, .bool false, .bool true, .bool true], c)
  | _ => (.null, c)

/-- A script over an empty cache. -/
def cacheScript (rs : List Record) (steps : List Form) : List Form :=
  (steps.foldl (fun (out, c) step =>
    let (f, c) := cacheStep rs c step
    (out ++ [f], c)) (([] : List Form), ({} : Cache))).1

/-- Reads a report that was encoded. -/
def decodedReport (style : Report.Style) (bs : Bytes) : Form :=
  match Report.decode Pack.messagePack bs with
  | .ok rs => .record (("records", .list (rs.map ofRecord)) :: recordTexts style rs)
  | .error .malformed => .record [("error", .text "decode")]
  | .error (.schema name n) =>
    .record [("error", .text "decode"), ("message", ofBytes (ReportFault.schemaMessage name n))]
  | .error .absent => .record [("error", .text "runtime_panic")]

end Form

namespace Work

open Form

/-- Applies the outcome of a run to a record. -/
def applyOutcome (r : Record) (f : Form) : Work Record := do
  if f.isNull then return r
  let v ← readValue (f.nth 0)
  let err ← readError? (f.nth 1)
  let failure ← readError? (f.nth 3)
  let w := (← get).world
  let text (e : Option Value) : Option Bytes := e.map fun e => (w.message? e).getD []
  return r.withOutcome (v.map fun v => w.textOf (some v)) (text err) (f.nth 2).asInt (text failure)

/-- Keys, encoded reports, or records with their texts and a cache. -/
def reportForm (f : Form) : Work Form := do
  let style : Report.Style := ⟨(f.field "color").asBool, (f.field "timings").asBool⟩
  if let .list parts := f.field "key" then
    return .record [("key", .text (Digest.ofParts (parts.map asText)).toHex)]
  if let .text hex := f.field "hex" then
    return decodedReport style ((Bytes.ofHex? hex).getD [])
  let outcomes := (f.field "outcomes").elems
  let rs ← (f.field "records").elems.zipIdx.mapM fun (r, i) =>
    applyOutcome (readRecord r) (outcomes.getD i .null)
  let bytes := Report.encode Pack.messagePack (if rs.isEmpty then none else some rs)
  let back := match Report.decode Pack.messagePack bytes with
    | .ok back => ("roundtrip", Form.bool (back.length == rs.length &&
        (back.zip rs).all fun (a, b) => sameRecord a b))
    | .error (.schema name n) => ("decode", ofBytes (ReportFault.schemaMessage name n))
    | .error _ => ("decode", .text "")
  let cache := match f.field "cache" with
    | .list steps => [("cache", Form.list (cacheScript rs steps))]
    | _ => []
  return .record ([("encoded", .text bytes.toHex), back] ++ recordTexts style rs ++ cache)

end Work

namespace Form

/-- Timings that are merged, summed up and searched, or a script over a clock of phases. -/
def observForm (f : Form) : Form :=
  let listed (c : PhaseClock) : Form := .list (c.phases.map fun (n, note) => .list [.text n, .text note])
  match f.field "timer" with
  | .list steps =>
    let isNil := (f.field "nil").asBool
    let step (st : List Form × PhaseClock) (s : Form) : List Form × PhaseClock :=
      let (out, c) := st
      match s.head, isNil with
      | "begin", true => (out ++ [.num (-1), listed c], c)
      | _, true => (out ++ [listed c], c)
      | "begin", _ =>
        let (i, c) := c.start (s.nth 1).asText
        (out ++ [.nat i, listed c], c)
      | "end", _ =>
        let c := c.stop (s.nth 1).asInt (s.nth 2).asText
        (out ++ [listed c], c)
      | _, _ =>
        let c := c.measure (s.nth 1).asText (s.nth 2).asText
        (out ++ [listed c], c)
    let (out, c) := steps.foldl step ([], {})
    let summary := (Timings.ofPhases c.phases).summary
    .record [("steps", .list out), ("lines", .nat (List.count 10 summary))]
  | _ =>
    let a := readTimings (f.field "a")
    let merged := a.merge (readTimings (f.field "b"))
    .record [("merged", ofTimings merged), ("summary", ofBytes merged.summary),
      ("a", ofBytes a.summary),
      ("find", .list ((f.field "find").elems.map fun n =>
        let ms := a.find? (Bytes.ofString n.asText)
        .list [ofMillis (ms.getD 0), .bool ms.isSome]))]

end Form

end Resumable
