import Resumable.Decimal.Number
import Resumable.Text.Layout

/-!
# `Report.Timing`: the phases of a run

A run goes through named phases, each with a duration in milliseconds and a note. Timings of several runs
are merged by the names of their phases.
-/

namespace Resumable

/-- One phase and how long it took. -/
structure Phase where
  name : Bytes := []
  ms : Float := 0
  note : Bytes := []
  deriving Inhabited

/-- The phases of a run in order, and the time of all of them. -/
structure Timings where
  total : Float := 0
  phases : List Phase := []
  deriving Inhabited

namespace Timings

/-- The duration of the first phase with a name. -/
def find? (t : Timings) (name : Bytes) : Option Float := (t.phases.find? (·.name == name)).map (·.ms)

/-- Adds a phase to those before it: to the one of its name, or at the end. Notes belong to a single run
and are dropped. -/
def insert (ps : List Phase) (p : Phase) : List Phase :=
  if ps.any (·.name == p.name) then
    ps.map fun q => if q.name == p.name then { q with ms := q.ms + p.ms } else q
  else ps ++ [{ p with note := [] }]

/-- The timings of two runs together, phases in the order in which they were first seen. -/
def merge (a b : Timings) : Timings :=
  ⟨a.total + b.total, (a.phases ++ b.phases).foldl insert []⟩

/-- The columns of one phase. -/
def row (name : Bytes) (ms : Float) : Bytes :=
  Bytes.ofString "  " ++ name.padRight 20 ++
    Bytes.ofString (" " ++ Text.padLeft 7 (Decimal.fixed 2 ms) ++ " ms")

/-- The timings as an aligned table. -/
def summary (t : Timings) : Bytes :=
  let line (p : Phase) : Bytes :=
    row p.name p.ms ++
      (if p.note.isEmpty then [] else Bytes.ofString "  // " ++ p.note) ++ Bytes.ofString "\n"
  Bytes.ofString "timings:\n" ++ t.phases.flatMap line ++
    row (Bytes.ofString "total") t.total ++ Bytes.ofString "\n"

/-- Timings whose durations are not known. -/
def ofPhases (ps : List (String × String)) : Timings :=
  { phases := ps.map fun (name, note) =>
      { name := Bytes.ofString name, note := Bytes.ofString note } }

end Timings

/-- The phases that a clock has seen begin, with the notes they ended with. -/
structure PhaseClock where
  phases : List (String × String) := []
  deriving Inhabited

namespace PhaseClock

/-- Begins a phase; also gives its number. -/
def start (c : PhaseClock) (name : String) : Nat × PhaseClock :=
  (c.phases.length, ⟨c.phases ++ [(name, "")]⟩)

/-- Ends the phase with a number; numbers without a phase are ignored. -/
def stop (c : PhaseClock) (number : Int) (note : String) : PhaseClock :=
  if number < 0 then c else ⟨c.phases.modify number.toNat fun (name, _) => (name, note)⟩

/-- A phase that ends as soon as it has begun. -/
def measure (c : PhaseClock) (name note : String) : PhaseClock := ⟨c.phases ++ [(name, note)]⟩

end PhaseClock

end Resumable
