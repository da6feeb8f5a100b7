import Resumable.Lower.Basic
import Resumable.Report.Timing
import Resumable.Word

/-!
# `Report.Record`: what is kept of a run

A record summarizes one lowered and executed lambda: its machines, the outcome of the run and its
timings. Numbers have fixed widths, so that records can be stored.
-/

namespace Resumable

/-- A state of a machine; `next` is negative when no state follows. -/
structure StateRecord where
  id : UInt16 := 0
  name : Bytes := []
  next : Int32 := 0
  terminal : Bool := false
  deriving Inhabited, DecidableEq

/-- One state machine. -/
structure MachineRecord where
  name : Bytes := []
  kind : Bytes := []
  fast : Bool := false
  states : List StateRecord := []
  deriving Inhabited, DecidableEq

/-- One lowered and executed lambda. -/
structure Record where
  schema : UInt16 := 0
  name : Bytes := []
  title : Bytes := []
  kind : Bytes := []
  machines : List MachineRecord := []
  value : Bytes := []
  err : Bytes := []
  /-- Why the run did not match its expectation. -/
  failure : Bytes := []
  steps : UInt32 := 0
  timings : Timings := {}
  deriving Inhabited

/-- Why machines cannot be recorded. -/
inductive RecordFault where
  | stateId (machine : String) (id : Int)
  | continuation (machine : String) (id : Int)

namespace RecordFault

def message : RecordFault → String
  | .stateId m id => m ++ ": state id " ++ toString id ++ ": out of range"
  | .continuation m id => m ++ ": continuation of state " ++ toString id ++ ": out of range"

end RecordFault

namespace Record

/-- The version of the layout of records. -/
def currentSchema : UInt16 := 1

/-- Whether the run matched its expectation. -/
def isOk (r : Record) : Bool := r.failure.isEmpty

/-- The number of states of all machines. -/
def stateCount (r : Record) : Nat := r.machines.foldl (fun n m => n + m.states.length) 0

/-- Records a state. -/
def ofState (m : Machine) (s : State) : Except RecordFault StateRecord := do
  if !fitsUnsigned 16 s.id then throw (.stateId m.name s.id)
  let next := (s.next.map m.graph.idOf).getD (-1)
  if !fitsSigned 32 next then throw (.continuation m.name s.id)
  return ⟨s.id.toNat.toUInt16, Bytes.ofString s.name, Int32.ofInt next, s.terminal⟩

/-- Records a machine. -/
def ofMachine (m : Machine) : Except RecordFault MachineRecord := do
  let states ← m.stateList.mapM (ofState m)
  return ⟨Bytes.ofString m.name, Bytes.ofString m.kind.text, m.fast, states⟩

/-- Records machines, that of the root last, and the phases in which they were made. -/
def ofMachines (name : String) (ms : List Machine) (phases : List (String × String)) :
    Except RecordFault Record := do
  let machines ← ms.mapM ofMachine
  return { schema := currentSchema, name := Bytes.ofString name
           kind := (ms.getLast?.map fun m => Bytes.ofString m.kind.text).getD []
           machines, timings := .ofPhases phases }

/-- Fills in how the run ended; what is missing or does not fit is left as it is. -/
def withOutcome (r : Record) (value err : Option Bytes) (steps : Int) (failure : Option Bytes) :
    Record :=
  { r with
    value := value.getD r.value
    err := err.getD r.err
    failure := failure.getD r.failure
    steps := if fitsUnsigned 32 steps then steps.toNat.toUInt32 else r.steps }

end Record

end Resumable
