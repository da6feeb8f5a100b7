import Resumable.Report.Layout
import Resumable.Report.Record

/-!
# `Report.Codec`: records as bytes

A report is a list of records, written tersely in a format. Reading one fails when the bytes are no list of
records, and when a record has another layout than the current one.
-/

namespace Resumable

open Pack

namespace Phase

def layout : Layout Phase := .record {}
  [Layout.text.field "name" (·.name) (fun p v => { p with name := v }) false,
   Layout.double.field "duration_ms" (·.ms) (fun p v => { p with ms := v }) false,
   Layout.text.field "note" (·.note) (fun p v => { p with note := v }) true]

end Phase

namespace Timings

def layout : Layout Timings := .record {}
  [Layout.double.field "total_ms" (·.total) (fun t v => { t with total := v }) false,
   (Layout.list Phase.layout).field "phases" (·.phases) (fun t v => { t with phases := v }) false]

end Timings

namespace StateRecord

def layout : Layout StateRecord := .record {}
  [Layout.word16.field "id" (·.id) (fun s v => { s with id := v }) false,
   Layout.text.field "name" (·.name) (fun s v => { s with name := v }) true,
   Layout.int32.field "next" (·.next) (fun s v => { s with next := v }) false,
   Layout.bool.field "terminal" (·.terminal) (fun s v => { s with terminal := v }) false]

end StateRecord

namespace MachineRecord

def layout : Layout MachineRecord := .record {}
  [Layout.text.field "name" (·.name) (fun m v => { m with name := v }) false,
   Layout.text.field "kind" (·.kind) (fun m v => { m with kind := v }) false,
   Layout.bool.field "fast_path" (·.fast) (fun m v => { m with fast := v }) false,
   (Layout.list StateRecord.layout).field "states" (·.states) (fun m v => { m with states := v }) false]

end MachineRecord

namespace Record

def layout : Layout Record := .record {}
  [Layout.word16.field "schema" (·.schema) (fun r v => { r with schema := v }) false,
   Layout.text.field "name" (·.name) (fun r v => { r with name := v }) false,
   Layout.text.field "title" (·.title) (fun r v => { r with title := v }) true,
   Layout.text.field "kind" (·.kind) (fun r v => { r with kind := v }) false,
   (Layout.list MachineRecord.layout).field "machines" (·.machines)
     (fun r v => { r with machines := v }) false,
   Layout.text.field "value" (·.value) (fun r v => { r with value := v }) true,
   Layout.text.field "err" (·.err) (fun r v => { r with err := v }) true,
   Layout.text.field "failure" (·.failure) (fun r v => { r with failure := v }) true,
   Layout.word32.field "steps" (·.steps) (fun r v => { r with steps := v }) false,
   Timings.layout.field "timings" (·.timings) (fun r v => { r with timings := v }) false]

end Record

/-- Why bytes are no report. -/
inductive ReportFault where
  /-- They are no list of records. -/
  | malformed
  /-- A record has another layout. -/
  | schema (name : Bytes) (found : UInt16)
  /-- A record is missing from the list. -/
  | absent

namespace ReportFault

/-- What is said about a record of another layout. -/
def schemaMessage (name : Bytes) (found : UInt16) : Bytes :=
  Bytes.ofString "report " ++ name ++ Bytes.ofString (": schema " ++ toString found.toNat ++
    ", want " ++ toString Record.currentSchema.toNat)

end ReportFault

namespace Report

/-- The document of a report; one that was never begun is null. -/
def doc (fmt : Format) (rs : Option (List Record)) : Doc :=
  match rs with
  | none => .null
  | some rs => .list (rs.map (Record.layout.pack fmt true))

/-- The bytes of a report. -/
def encode (fmt : Format) (rs : Option (List Record)) : Bytes := fmt.write (doc fmt rs)

/-- The records, if all are there and of the current layout. -/
def checked : List (Option Record) → Except ReportFault (List Record)
  | [] => .ok []
  | none :: _ => .error .absent
  | some r :: rs =>
    if r.schema == Record.currentSchema then return r :: (← checked rs)
    else .error (.schema r.name r.schema)

/-- Reads a report; bytes after it are ignored. -/
def decode (fmt : Format) (bs : Bytes) : Except ReportFault (List Record) :=
  match (fmt.read bs).bind ((Layout.list (Layout.nullable Record.layout)).unpack []) with
  | none => .error .malformed
  | some rs => checked rs

/-- What is said about bytes that are no report, by the first of them that are wrong. -/
def malformedText (bs : Bytes) : String :=
  let hexadecimal (b : UInt8) : String := String.ofList (Nat.toDigits 16 b.toNat)
  let isList (b : UInt8) : Bool := (0x90 ≤ b && b ≤ 0x9F) || b == 0xDC || b == 0xDD || b == 0xC0
  match bs with
  | [] => "EOF"
  | b :: rest =>
    if !isList b then "msgpack: invalid code=" ++ hexadecimal b ++ " decoding array length"
    else match rest with
      | [] => "EOF"
      | c :: _ =>
        if (0x91 ≤ b && b ≤ 0x9F) && !((0x80 ≤ c && c ≤ 0x9F) || (0xDC ≤ c && c ≤ 0xDF) || c == 0xC0) then
          "msgpack: unexpected code=" ++ hexadecimal c ++ " decoding map length"
        else "unexpected EOF"

end Report

end Resumable
