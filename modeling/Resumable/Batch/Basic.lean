import Resumable.Report.Cache
import Resumable.Sample.Outcome
import Resumable.Trace.Lowering

/-!
# `Batch`: running many samples

Every sample of a batch is lowered, run and checked, unless a cache holds its record already. Progress is
told as events: all samples are queued first, and each goes through its stages until it is done.

**Contents**
* `Stage`, `Status`, `Event`: what is told on the way.
* `Request`, `Result`: what is asked for, and what one sample came to.
* `Batch.run`: a whole batch.
-/

namespace Resumable.Batch

/-- One step of running a sample. -/
inductive Stage where
  | lower | run | check
  deriving DecidableEq, Repr, Inhabited

namespace Stage

def text : Stage → String
  | .lower => "lower" | .run => "run" | .check => "check"

/-- The stage with a name. -/
def ofText? (s : String) : Option Stage := [.lower, .run, .check].find? (·.text == s)

end Stage

/-- How far a sample is. -/
inductive Status where
  | queued | working | done | cached | error
  deriving DecidableEq, Repr, Inhabited

namespace Status

def text : Status → String
  | .queued => "queued" | .working => "working" | .done => "done" | .cached => "cached"
  | .error => "error"

/-- The status with a name. -/
def ofText? (s : String) : Option Status :=
  [.queued, .working, .done, .cached, .error].find? (·.text == s)

end Status

/-- Progress of a sample. -/
structure Event where
  sample : String
  stage : Stage
  status : Status
  error : Option Bytes := none

/-- What a batch is made of. -/
structure Request where
  samples : List Sample
  options : LowerOptions := {}
  /-- What tells the build from others, as part of every key of the cache. -/
  fingerprint : String := ""
  /-- Whether the batch is given up before any sample is begun. -/
  canceled : Bool := false

/-- What one sample came to; one that was not begun has no record. -/
structure Result where
  record : Option Record := none
  cached : Bool := false
  error : Option Bytes := none
  /-- The stages that were gone through. -/
  stages : List Stage := []
  deriving Inhabited

/-- What a batch keeps while it runs. -/
structure Progress where
  cache : Option Cache := none
  tracer : Trace.Tracer := {}
  events : Array Event := #[]

/-- Running a batch. -/
abbrev Running := StateT Progress Work

/-- What a batch came to. -/
structure Summary where
  results : List Result := []
  /-- The phases of all samples that were lowered. -/
  phases : Timings := {}
  canceled : Bool := false

namespace Summary

/-- The number of samples that did not pass. -/
def failed (s : Summary) : Nat := (s.results.filter (·.error.isSome)).length

/-- The records of the samples that were begun. -/
def records (s : Summary) : List Record := s.results.filterMap (·.record)

end Summary

/-- The options that change what lowering makes, in words. -/
def optionsText (o : LowerOptions) : String :=
  let bool (b : Bool) : String := if b then "true" else "false"
  "debug=" ++ bool o.debug ++ " optimize=" ++ bool o.optimizes ++ " verify=" ++ bool o.verify

/-- The key of a sample in the cache. -/
def key (r : Request) (s : Sample) : Bytes :=
  Digest.ofParts [s.name, r.fingerprint, optionsText r.options]

/-- The message of a failure; one without a message goes on. -/
def messageOf (f : Failure) : Work Bytes := do
  match f with
  | .refused ds => return Bytes.ofString (failureText ds)
  | .stop (.raised e) => return ((← get).world.message? e).getD []
  | f => throw f

/-- Tells about progress. -/
def emit (e : Event) : Running Unit := modify fun p => { p with events := p.events.push e }

/-- Goes through a stage; an error of it is told with its name. -/
def stage (s : Sample) (st : Stage) (x : Running (Except Bytes α)) : Running (Except Bytes α) := do
  emit ⟨s.name, st, .working, none⟩
  match ← x with
  | .ok a => return .ok a
  | .error e => return .error (Bytes.ofString (st.text ++ ": ") ++ e)

/-- Lowers a sample under the span of the batch. -/
def lowerStage (r : Request) (parent : UInt64) (s : Sample) : Running (Except Bytes Lowered) := do
  Sample.freshLoop
  let e ← s.tree
  let (l, _, tracer) ← Work.lowerTraced (← get).tracer parent r.options e
  modify fun p => { p with tracer }
  match l with
  | .ok l => return .ok l
  | .error f => return .error (← messageOf f)

/-- Runs a lowered sample. -/
def runStage (s : Sample) (l : Lowered) : Running (Except Bytes Outcome) := do
  match ← (Work.attempt (s.execute l) : Work _) with
  | .ok o => return .ok o
  | .error f => return .error (← messageOf f)

/-- Checks what a sample came to, and its machines. -/
def checkStage (s : Sample) (l : Lowered) (o : Outcome) : Running (Except Bytes Unit) := do
  match Sample.fault? (← getThe Session).world s o with
  | some e => return .error e
  | none =>
    match invariantFault? l.tree l.machines with
    | some e => return .error (Bytes.ofString e)
    | none => return .ok ()

/-- How far a sample came: its machines, its outcome, the first error and the stages. -/
structure Attempt where
  lowered : Option Lowered := none
  outcome : Option Outcome := none
  error : Option Bytes := none
  stages : List Stage := []

/-- Goes through the stages of a sample up to the first error. -/
def attempt (r : Request) (parent : UInt64) (s : Sample) : Running Attempt := do
  match ← stage s .lower (lowerStage r parent s) with
  | .error e => return { error := some e, stages := [.lower] }
  | .ok l =>
    match ← stage s .run (runStage s l) with
    | .error e => return { lowered := some l, error := some e, stages := [.lower, .run] }
    | .ok o =>
      let verdict ← stage s .check (checkStage s l o)
      return { lowered := some l, outcome := some o, stages := [.lower, .run, .check],
               error := match verdict with
                 | .ok _ => none
                 | .error e => some e }

/-- Two errors as one, each on a line. -/
def joinTexts (first : Option Bytes) (second : Bytes) : Bytes :=
  ([10] : Bytes).intercalate (first.toList ++ [second])

/-- The record of a sample, whether it may be stored, and the error that making it may add. -/
def recordOf (w : World) (s : Sample) (a : Attempt) : Record × Bool × Option Bytes :=
  let made := match a.lowered with
    | some l => Record.ofMachines s.name l.machines l.phases
    | none => Record.ofMachines s.name [] []
  let (r, storable, error) := match made with
    | .ok r => (r, true, a.error)
    | .error f =>
      ({ name := Bytes.ofString s.name : Record }, false,
        some (joinTexts a.error (Bytes.ofString f.message)))
  let o := a.outcome.getD {}
  let r := { r with title := Bytes.ofString s.title }.withOutcome
    (o.value.map fun v => w.textOf (some v)) (o.error.map fun e => (w.message? e).getD []) o.steps error
  (r, storable, error)

/-- The record that the cache holds for a sample; a file that cannot be read counts as none. -/
def cached? (r : Request) (s : Sample) : Running (Option Record) := do
  match (← get).cache with
  | none => return none
  | some c =>
    match c.get (key r s) with
    | .ok found => return found
    | .error _ => return none

/-- Runs one sample, or takes its record from the cache. -/
def runSample (r : Request) (parent : UInt64) (s : Sample) : Running Result := do
  match ← cached? r s with
  | some rec =>
    let error := if rec.isOk then none else some rec.failure
    emit ⟨s.name, .check, .cached, error⟩
    return { record := some rec, cached := true, error }
  | none =>
    let a ← attempt r parent s
    let (rec, storable, error) := recordOf (← getThe Session).world s a
    if storable then
      modify fun p => { p with cache := p.cache.map (·.put (key r s) rec) }
    emit ⟨s.name, .check, if error.isSome then .error else .done, error⟩
    return { record := some rec, error, stages := a.stages }

/-- Runs the samples of a batch, one after the other. -/
def run (r : Request) : Running Summary := do
  let (span, tracer) := (← get).tracer.start .batch "batch" 0
  modify fun p => { p with tracer }
  for s in r.samples do
    emit ⟨s.name, .lower, .queued, none⟩
  if r.samples.isEmpty then
    modify fun p => { p with tracer := p.tracer.finish span "empty" }
    return {}
  let results ← if r.canceled then pure (r.samples.map fun _ => {})
    else r.samples.mapM (runSample r span.id)
  let fresh := results.filterMap fun x => if x.cached then none else x.record
  let phases := fresh.foldl (fun t (rec : Record) => t.merge rec.timings) ({} : Timings)
  let sum : Summary := { results, phases, canceled := r.canceled }
  let span := (span.withAttr "samples" (toString r.samples.length)).withAttr "failed" (toString sum.failed)
  let detail := if r.canceled then "cancelled" else "ok"
  modify fun p => { p with tracer := p.tracer.finish span detail }
  return sum

end Resumable.Batch
