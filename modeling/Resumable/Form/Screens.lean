import Resumable.Batch.Screen
import Resumable.Form.Basic

/-!
# `Form.Screens`: screens by script

Runs a script over the screen of a batch and tells what is shown after each step.
-/

namespace Resumable.Form

open Batch

/-- One step of a script; also tells whether something is waited for next and whether the screen goes. -/
def screenStep (s : Screen) (step : Form) : Screen × Bool × Bool :=
  match step.head with
  | "event" =>
    let stage := Stage.ofText? (step.nth 2).asText
    let status := Status.ofText? (step.nth 3).asText
    (s.progress (step.nth 1).asText stage status, true, false)
  | "done" => (s.finish, true, true)
  | "ctrlc" => (s, true, true)
  | "key" => (s, (step.nth 1).asText == "ctrl+c", false)
  | "tick" => (s.tick, !s.done, false)
  | "size" => (s.resize (step.nth 1).asInt, false, false)
  | _ => (s, false, false)

/-- Runs a script over a screen. -/
def screenForm (f : Form) : Form :=
  let start := Screen.initial (f.field "title").asText ((f.field "names").elems.map asText)
  let step (st : List Form × Screen) (x : Form) : List Form × Screen :=
    let (s, waits, leaves) := screenStep st.2 x
    (st.1 ++ [.list [.text s.view, .bool waits, .bool leaves]], s)
  .list ((f.field "steps").elems.foldl step ([.text start.view], start)).1

end Resumable.Form
