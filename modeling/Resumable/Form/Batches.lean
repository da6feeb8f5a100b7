import Resumable.Batch.Basic
import Resumable.Form.Reports
import Resumable.Form.Samples

/-!
# `Form.Batches`: batches by description

Runs a batch several times with one cache and tells about each run.
-/

namespace Resumable

namespace Form

open Batch

/-- An error where there is one. -/
def errorForm (e : Option Bytes) : List Form := e.toList.map ofBytes

/-- Progress as a form. -/
def ofProgress (e : Event) : Form :=
  .list ([.text e.sample, .text e.stage.text, .text e.status.text] ++ errorForm e.error)

/-- What one sample came to. -/
def ofResult (r : Result) : Form :=
  .record ([("record", (r.record.map ofRecord).getD .null), ("cached", .bool r.cached),
      ("stages", .list (r.stages.map fun s => .text s.text)), ("sums", .bool true)] ++
    (errorForm r.error).map fun e => ("err", e))

/-- What a batch came to, with what was told on the way. -/
def ofSummary (events : Array Event) (s : Summary) : Form :=
  let table := if s.results.all (·.record.isSome) then
      [("table", ofBytes (Report.table {} s.records))]
    else []
  .record ([("failed", .nat s.failed), ("events", .list (events.toList.map ofProgress)),
      ("results", .list (s.results.map ofResult)),
      ("phases", .list (s.phases.phases.map fun p => ofBytes p.name))] ++
    (if s.canceled then [("error", .text Sentinel.canceled.text)] else []) ++ table)

end Form

namespace Work

open Form

/-- Runs a described batch. -/
def batchForm (f : Form) : Work Form := do
  if (f.field "nilreq").asBool then
    return .record [("error", .text "error"), ("message", .text "missing batch request")]
  let described ← (f.field "custom").elems.mapM readSample
  let request : Batch.Request :=
    { samples := (f.field "names").elems.filterMap (fun n => Sample.find? n.asText) ++ described
      options := readOptions (f.field "opts")
      fingerprint := (f.field "fingerprint").asText
      canceled := (f.field "cancel").asBool }
  let mut cache : Option Cache := if (f.field "cache").asBool then some {} else none
  let mut runs : List Form := []
  for _ in List.range (max 1 (f.field "runs").asNat) do
    let (sum, progress) ← (Batch.run request).run { cache }
    cache := progress.cache
    runs := runs ++ [ofSummary progress.events sum]
  return .record [("key", .text (Batch.optionsText request.options)), ("runs", .list runs)]

end Work

end Resumable
