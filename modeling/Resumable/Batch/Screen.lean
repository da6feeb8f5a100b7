import Resumable.Batch.Basic
import Resumable.Text.Width

/-!
# `Batch.Screen`: the progress of a batch on a terminal

A heading with a spinner, one line a sample with its status, and a bar that fills when the batch is over.
-/

namespace Resumable.Batch

/-- A sample on the screen. -/
structure Item where
  name : String
  status : String

/-- What is shown. -/
structure Screen where
  title : String
  items : List Item
  /-- The stage of the batch as a whole. -/
  stage : String := ""
  width : Int := 80
  /-- The columns of the bar, its percentage included. -/
  barWidth : Int := 76
  /-- The picture of the spinner. -/
  frame : Nat := 0
  done : Bool := false

namespace Screen

/-- The screen before anything has happened. -/
def initial (title : String) (names : List String) : Screen where
  title := title
  items := names.map fun n => ⟨n, Status.queued.text⟩

/-- The word for what a sample is at; nothing when there is none. -/
def label? (stage : Option Stage) (status : Option Status) : Option String :=
  match status, stage with
  | some .working, some .lower => some "lowering"
  | some .working, some .run => some "running"
  | some .working, some .check => some "checking"
  | some .working, none => none
  | some s, _ => some s.text
  | none, _ => none

/-- Sets the status of the last item with a name. -/
def setStatus (name status : String) : List Item → List Item
  | [] => []
  | i :: is =>
    if i.name == name && !is.any (·.name == name) then ⟨name, status⟩ :: is
    else i :: setStatus name status is

/-- Shows progress of a sample, or of the batch when the sample has no name. -/
def progress (s : Screen) (sample : String) (stage : Option Stage) (status : Option Status) : Screen :=
  match label? stage status with
  | none => s
  | some label =>
    if sample.isEmpty then { s with stage := label }
    else { s with items := setStatus sample label s.items }

/-- Fits the screen to a number of columns. -/
def resize (s : Screen) (width : Int) : Screen :=
  if width > 0 then { s with width, barWidth := width - 4 } else s

/-- The pictures of the spinner. -/
def frames : List String := ["⣾ ", "⣽ ", "⣻ ", "⢿ ", "⡿ ", "⣟ ", "⣯ ", "⣷ "]

/-- Turns the spinner, which stands still when the batch is over. -/
def tick (s : Screen) : Screen :=
  if s.done then s else { s with frame := (s.frame + 1) % frames.length }

/-- The batch is over. -/
def finish (s : Screen) : Screen := { s with done := true }

/-- A text without tabs, with blanks after its shorter lines. -/
def paragraph (s : String) : String :=
  let lines := ((s.replace "\t" "    ").replace "\r\n" "\n").splitOn "\n"
  let width := (lines.map Text.columns).foldl max 0
  match lines with
  | [line] => line
  | lines => "\n".intercalate (lines.map fun l => l ++ Text.fill width (Text.columns l))

/-- The heading. -/
def heading (s : Screen) : String :=
  let title := if s.stage.isEmpty then s.title else s.title ++ " (" ++ s.stage ++ ")"
  paragraph (if s.done then "done: " ++ title else frames.getD s.frame "" ++ " " ++ title)

/-- The bar, empty until the batch is over, and the percentage. -/
def bar (s : Screen) : String :=
  let percentage := if s.done then " 100%" else "   0%"
  let room := (s.barWidth - percentage.length).toNat
  "".pushn (if s.done then '█' else '░') room ++ percentage

/-- The line of an item. -/
def line (s : Screen) (i : Item) : String :=
  let room := (max (s.width - 16) 20).toNat
  "  " ++ Text.padLeft 12 i.status ++ " " ++ Text.truncate room "..." i.name ++ "\n"

/-- Everything that is shown; nothing without items. -/
def view (s : Screen) : String :=
  if s.items.isEmpty then ""
  else s.heading ++ "\n\n" ++ String.join (s.items.map s.line) ++ "\n" ++ s.bar ++ "\n"

end Screen

end Resumable.Batch
