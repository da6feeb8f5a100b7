import Resumable.Command.Host
import Resumable.Command.Tree
import Resumable.Report.Codec
import Resumable.Report.Pack
import Resumable.Report.Table
import Resumable.Run.Describe
import Resumable.Settings
import Resumable.Trace.Lowering

/-!
# `Command.Shell`: what all commands share

A command writes to two streams, works in a session, and may trace what it does. Before it runs, the
settings are read from a file and the trace is set up; afterwards the trace is handed over. A command that
fails says why.
-/

namespace Resumable.Command

/-- What a command has written and where it stands. -/
structure Console where
  out : Bytes := []
  err : Bytes := []
  session : Session := { supply := { names := 1 } }
  settings : Settings := {}
  tracer : Trace.Tracer := {}
  /-- The file that the trace is written to. -/
  traceFile : Option String := none

/-- Running a command. -/
abbrev Shell (m : Type → Type) := ExceptT String (StateT Console m)

namespace Shell

variable {m : Type → Type} [Monad m] [Host m]

/-- Asks the host for something. -/
def ask (x : m α) : Shell m α := ExceptT.lift (StateT.lift x)

def print (bs : Bytes) : Shell m Unit := modify fun c => { c with out := c.out ++ bs }

def printLine (s : String) : Shell m Unit := print (Bytes.ofString (s ++ "\n"))

def complain (s : String) : Shell m Unit :=
  modify fun c => { c with err := c.err ++ Bytes.ofString s }

/-- Works in the session of the command. -/
def work (x : Work α) : Shell m (Except Failure α) := do
  match Work.attempt x (← get).session with
  | .ok r session =>
    modify fun c => { c with session }
    return r
  | .error _ _ => throw "session lost"

/-- Writes a file, or fails in the words of `front`. -/
def writeFile (front path : String) (bs : Bytes) : Shell m Unit := do
  match ← ask (Host.write path bs) with
  | .ok _ => return
  | .error f => throw (front ++ f.message "open" path)

/-! ### Settings -/

/-- The name of the file of settings. -/
def settingsName : String := "asyncexpr.toml"

/-- The first of some files that is there. -/
def firstThere : List String → Shell m (Option String)
  | [] => return none
  | p :: ps => do
    match ← ask (Host.read p) with
    | .ok _ | .error .isFolder => return some p
    | .error _ => firstThere ps

/-- Reads a file of settings. -/
def readSettings (path : String) : Shell m Settings := do
  let r : Except SettingsFault Settings := match ← ask (Host.read path) with
    | .ok bs => if bs.isUtf8 then Settings.read bs.toText else .error .unreadable
    | .error _ => .error .unreadable
  match r with
  | .ok c => return c
  | .error f => throw (path ++ ": " ++ f.message)

/-- Reads the settings from the file that a flag names, or from the nearest one upward. -/
def loadSettings (flags : Flags) : Shell m Unit := do
  let given := (flags.text? "config").getD ""
  let path ← if given.isEmpty then do
      let folder ← ask Host.folder
      firstThere ((Path.upward folder).map (Path.join · settingsName))
    else pure (some given)
  match path with
  | none => return
  | some p =>
    let settings ← readSettings p
    modify fun c => { c with settings }

/-- The value of a flag, or else of a setting. -/
def setting (flags : Flags) (name otherwise : String) : String := (flags.text? name).getD otherwise

/-- The options of lowering, from flags and settings. -/
def lowerOptions (flags : Flags) : Shell m LowerOptions := do
  let o := (← get).settings.lowerOptions
  return { o with
    debug := (flags.bool? "debug").getD o.debug
    noOptimize := (flags.bool? "no-optimize").getD o.noOptimize
    verify := (flags.bool? "verify").getD o.verify }

/-- Whether colours are asked for. -/
def useColor (flags : Flags) : Shell m Bool := do
  let value := (flags.text? "color").getD "auto"
  match Toggle.ofText? value with
  | some t => return t.isOn (← ask Host.terminal)
  | none => throw ("invalid --color value " ++ Text.quote value ++ " (expected auto|on|off)")

/-- How text is rendered. -/
def style (flags : Flags) : Shell m Report.Style := do
  return { color := ← useColor flags, timings := flags.isSet "timings" }

/-! ### Traces and profiles -/

/-- Sets the trace up. An output without a level asks for the coarsest one. -/
def setUpTrace (flags : Flags) : Shell m Unit := do
  let c := (← get).settings
  let output := setting flags "trace" c.traceOutput
  let level ← ofExcept (Trace.Level.parse (setting flags "trace-level" c.traceLevel))
  let level := if level == .off && !output.isEmpty then .phase else level
  if level == .off then return
  let modeText := setting flags "trace-mode" c.traceMode
  let mode ← if modeText.isEmpty then pure .stream else ofExcept (Trace.Mode.parse modeText)
  let config : Trace.Config :=
    { level, mode, path := output, ringSize := (flags.int? "trace-ring-size").getD 4096 }
  match config.tracer with
  | .error e => throw ("failed to create tracer: " ++ e)
  | .ok tracer =>
    let toFile := mode != .ring && !output.isEmpty && output != "-"
    if toFile then writeFile "failed to create tracer: open trace output: " output []
    modify fun c => { c with tracer, traceFile := if toFile then some output else none }

/-- Begins the profiles that are asked for, which stay empty. -/
def setUpProfiles (flags : Flags) : Shell m Unit := do
  for name in ["cpu-profile", "runtime-trace"] do
    let path := (flags.text? name).getD ""
    if !path.isEmpty then writeFile "failed to start profiling: " path []

/-- Ends the profiles, and shows the ring of a trace that has only that. -/
def tidyUp (flags : Flags) : Shell m Unit := do
  let path := (flags.text? "mem-profile").getD ""
  if !path.isEmpty then
    match ← ask (Host.write path []) with
    | .ok _ => pure ()
    | .error f => complain ("profile: " ++ f.message "open" path ++ "\n")
  match (← get).tracer.sinks with
  | [.ring r] => complain (String.join (r.snapshot.map Trace.Event.line))
  | _ => pure ()

/-- Hands over what was traced to a file or in front of all complaints. -/
def deliverTrace (c : Console) : m Console := do
  let traced := Bytes.ofString c.tracer.output
  match c.traceFile with
  | some path =>
    discard (Host.write path traced)
    return c
  | none => return { c with err := traced ++ c.err }

/-! ### Trees -/

/-- Tells why a sample cannot be lowered or called. -/
def failSample (name : String) (f : Failure) : Shell m α := do
  match f with
  | .refused ds =>
    complain (formatShort ds true ++ "\n")
    throw (name ++ ": lowering failed with " ++ toString ds.length ++ " diagnostic(s)")
  | .stop (.raised e) =>
    throw (name ++ ": " ++ (((← get).session.world.message? e).getD []).toText)
  | _ => throw (name ++ ": broken tree")

/-- Lowers a tree under the trace. -/
def lower (name : String) (options : LowerOptions) (e : Expr) : Shell m Lowered := do
  match ← work (Work.lowerTraced (← get).tracer 0 options e) with
  | .ok (r, _, tracer) =>
    modify fun c => { c with tracer }
    match r with
    | .ok l => return l
    | .error f => failSample name f
  | .error f => failSample name f

/-- Writes records to a file. -/
def writeRecords (path : String) (rs : List Record) : Shell m Unit :=
  writeFile ("failed to create " ++ Text.quote path ++ ": ") path (Report.encode Pack.messagePack (some rs))

end Shell

end Resumable.Command
