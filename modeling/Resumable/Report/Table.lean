import Resumable.Report.Paint
import Resumable.Report.Record
import Resumable.Text.Width

/-!
# `Report.Table`: records as text

One aligned line a record, followed by a tally; and the states of the machines of a record.
-/

namespace Resumable.Report

/-- How text is rendered. -/
structure Style where
  color : Bool := false
  /-- Whether the timings follow each record. -/
  timings : Bool := false

/-- The lines of a text, each with its end, without a last one that is empty. -/
def linesOf : Bytes → List Bytes
  | [] => []
  | b :: rest =>
    if b == 10 then [b] :: linesOf rest
    else match linesOf rest with
      | [] => [[b]]
      | l :: ls => (b :: l) :: ls

/-- Every line of a text behind a margin. -/
def indent (margin : String) (text : Bytes) : Bytes :=
  (linesOf text).flatMap fun l => Bytes.ofString margin ++ l

/-- What a run came to, in a few words. -/
def outcome (r : Record) : Bytes :=
  if r.err.isEmpty then r.value else Bytes.ofString "error: " ++ r.err

/-- The lines of one record. -/
def rows (style : Style) (width : Nat) (r : Record) : Bytes :=
  let on := style.color
  let status := if r.isOk then Paint.success.text on "ok  " else Paint.failure.text on "FAIL"
  let count := Text.padLeft 3 (toString r.stateCount)
  Bytes.ofString (status ++ " ") ++ Paint.name.bytes on (r.name.padColumns width) ++
    Bytes.ofString "  " ++ r.kind.padRight 8 ++ Bytes.ofString (" " ++ count ++ " states  ") ++
    outcome r ++ [10] ++
  (if r.isOk then []
   else Bytes.ofString "     " ++ Paint.failure.bytes on r.failure ++ [10]) ++
  (if style.timings && !r.timings.phases.isEmpty then
    Paint.faint.bytes on (indent "     " r.timings.summary)
   else [])

/-- One line a record, and a tally. -/
def table (style : Style) (rs : List Record) : Bytes :=
  let width := (rs.map fun r => r.name.columns).foldl max 4
  let failed := (rs.filter fun r => !r.isOk).length
  let tally := Paint.success.text style.color (toString (rs.length - failed) ++ " passed") ++
    (if failed > 0 then ", " ++ Paint.failure.text style.color (toString failed ++ " failed") else "")
  rs.flatMap (rows style width) ++ Bytes.ofString (tally ++ "\n")

/-- Where a state goes on. -/
def transition (s : StateRecord) : String :=
  if s.next ≥ 0 then "-> " ++ toString s.next.toInt else if s.terminal then "end" else "-"

/-- The states of a machine. -/
def machineRows (style : Style) (m : MachineRecord) : Bytes :=
  let on := style.color
  let width := (m.states.map fun s => s.name.columns).foldl max 0
  Paint.name.bytes on m.name ++ Bytes.ofString " (" ++ m.kind ++ Bytes.ofString ")" ++
    (if m.fast then Bytes.ofString (Paint.faint.text on " fast path, no states") else []) ++ [10] ++
    m.states.flatMap fun s =>
      Bytes.ofString ("  " ++ Text.padLeft 3 (toString s.id.toNat) ++ "  ") ++
        s.name.padColumns width ++
        Bytes.ofString ("  " ++ Paint.faint.text on (transition s) ++ "\n")

/-- The states of every machine of a record. -/
def machines (style : Style) (r : Record) : Bytes := r.machines.flatMap (machineRows style)

end Resumable.Report
