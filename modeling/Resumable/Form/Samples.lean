import Resumable.Form.Drive
import Resumable.Sample.Catalog
import Resumable.Sample.Outcome

/-!
# `Form.Samples`: samples from forms, and what they come to

A sample is named, or described with a tree of its own.
-/

namespace Resumable.Work

open Form

/-- Reads a described sample. Its tree is numbered from the beginning whenever it is built. -/
def readSample (f : Form) : Work Sample := do
  let want ← if (f.field "want").isNull then pure none else readValue (f.field "want")
  let wantError ← readError? (f.field "wantErr")
  let error ← match wantError, f.field "wantType" with
    | some e, _ => pure (ErrorWish.is e)
    | none, .text t => pure (.ofType (← readType (.text t)))
    | none, _ => pure .none
  return {
    name := (f.field "name").asText
    title := (f.field "title").asText
    kind := if (f.field "kind").asText == LambdaKind.iterator.text then .iterator else .async
    tree := do
      modify fun s => { s with supply := { s.supply with nodes := 0, names := 0 }, vars := [], labels := [] }
      readTree f
    args := (f.field "args").elems.mapM readValue
    want, error }

/-- The names and titles of all samples. -/
def sampleList : Form :=
  .list (Sample.catalog.map fun s =>
    .list [.text s.name, .text s.title, .text s.kind.text, .text s.handle.text])

/-- Builds, lowers and runs a sample and tells about it. -/
def sampleRun (s : Sample) (options : LowerOptions) : Work Form := do
  Sample.freshLoop
  let e ← s.tree
  let o : Origin := ⟨(← get).supply.names, (← get).supply.nodes⟩
  let source := ofTree (← get).world o e
  let l ← lower options e
  let dump := ofTree (← get).world o l.tree
  let outcome ← s.execute l
  let w := (← get).world
  return .record ([("source", source), ("machines", .list (l.machines.map ofMachine)), ("dump", dump)] ++
    settledFields w o (outcome.value, outcome.error) ++ [("steps", .nat outcome.steps)] ++
    ((Sample.fault? w s outcome).map fun text => ("check", ofBytes text)).toList)

/-- Lists the samples, or runs one. -/
def sampleForm (f : Form) : Work Form := do
  if (f.field "list").asBool then return sampleList
  let sample ← if (f.field "custom").isNull then pure (Sample.find? (f.field "name").asText)
    else some <$> readSample (f.field "custom")
  match sample with
  | none => return .record [("found", .bool false)]
  | some s => sampleRun s (readOptions (f.field "opts"))

end Resumable.Work
