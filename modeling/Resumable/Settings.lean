import Resumable.Lower.Machine
import Resumable.Text.Blank
import Resumable.Text.Fold
import Resumable.Toml.Read

/-!
# `Settings`: settings from a file

A file of settings has a section for lowering, for batches, for traces and for reports. Names are matched
without regard to case. A setting of the wrong sort makes the whole file unreadable, and a name that is no
setting is refused.
-/

namespace Resumable

/-- A setting that may be left to the terminal. -/
inductive Toggle where
  | auto | on | off
  deriving DecidableEq, Repr, Inhabited

namespace Toggle

/-- Reads a toggle; an empty one is left to the terminal. -/
def ofText? (s : String) : Option Toggle :=
  match Text.lower (Text.trim s) with
  | "" | "auto" => some .auto
  | "on" => some .on
  | "off" => some .off
  | _ => none

/-- Whether something is on. -/
def isOn (t : Toggle) (terminal : Bool) : Bool :=
  match t with
  | .auto => terminal
  | .on => true
  | .off => false

/-- What is said about a text that is no toggle. -/
def badUi (s : String) : String := "invalid ui value " ++ Text.quote s ++ " (expected auto|on|off)"

end Toggle

/-- The settings of a file. -/
structure Settings where
  optimize : Option Bool := none
  debug : Bool := false
  verify : Bool := false
  maxDiagnostics : Int := 0
  jobs : Int := 0
  ui : String := ""
  traceLevel : String := ""
  traceMode : String := ""
  traceOutput : String := ""
  cache : Bool := false
  cacheFolder : String := ""
  deriving Inhabited

/-- Why a file of settings is refused. -/
inductive SettingsFault where
  /-- There is no such file, or it holds no settings. -/
  | unreadable
  | unknown (keys : List Toml.Key)
  | negativeJobs
  | badUi (value : String)

namespace SettingsFault

def message : SettingsFault → String
  | .unreadable => "failed to parse TOML"
  | .unknown ks => "unknown keys: " ++ ", ".intercalate (ks.map Toml.Key.text)
  | .negativeJobs => "batch.jobs must not be negative"
  | .badUi v => "batch.ui: " ++ Toggle.badUi v

end SettingsFault

namespace Settings

open Toml

/-- What can be set in a file: a place, and how a value gets there. -/
structure Setting where
  part : String
  name : String
  set : Settings → Item → Option Settings

/-- A setting that is yes or no. -/
def flag (part name : String) (set : Settings → Bool → Settings) : Setting :=
  ⟨part, name, fun c v => match v with
    | .bool b => some (set c b)
    | _ => none⟩

/-- A setting that is a whole number. -/
def number (part name : String) (set : Settings → Int → Settings) : Setting :=
  ⟨part, name, fun c v => match v with
    | .integer n => some (set c n)
    | _ => none⟩

/-- A setting that is a text. -/
def text (part name : String) (set : Settings → String → Settings) : Setting :=
  ⟨part, name, fun c v => match v with
    | .text s => some (set c s)
    | _ => none⟩

/-- Everything that can be set. -/
def known : List Setting :=
  [flag "lower" "optimize" fun c b => { c with optimize := some b },
   flag "lower" "debug" fun c b => { c with debug := b },
   flag "lower" "verify" fun c b => { c with verify := b },
   number "lower" "max_diagnostics" fun c n => { c with maxDiagnostics := n },
   number "batch" "jobs" fun c n => { c with jobs := n },
   text "batch" "ui" fun c s => { c with ui := s },
   text "trace" "level" fun c s => { c with traceLevel := s },
   text "trace" "mode" fun c s => { c with traceMode := s },
   text "trace" "output" fun c s => { c with traceOutput := s },
   flag "report" "cache" fun c b => { c with cache := b },
   text "report" "dir" fun c s => { c with cacheFolder := s }]

/-- Whether a name in a file stands for the name of a setting. -/
def matchesName (written name : String) : Bool :=
  Text.equalFold (Bytes.ofString written) (Bytes.ofString name)

/-- The names of the sections. -/
def parts : List String := ["lower", "batch", "trace", "report"]

/-- The setting that a name in a section stands for. -/
def setting? (part name : String) : Option Setting :=
  known.find? fun s => matchesName part s.part && matchesName name s.name

/-- Takes over the settings of a section; nothing when one of them is of the wrong sort. -/
def takePart (part : String) (c : Settings) : Entries → Option Settings
  | [] => some c
  | (name, v) :: rest =>
    match setting? part name with
    | none => takePart part c rest
    | some s => (s.set c v).bind fun c => takePart part c rest

/-- Takes over the settings of all sections. -/
def takeAll (c : Settings) : Entries → Option Settings
  | [] => some c
  | (name, v) :: rest =>
    if !parts.any (matchesName name) then takeAll c rest
    else match v with
      | .table es => (takePart name c es).bind fun c => takeAll c rest
      | _ => none

/-- Whether a key of a file is a section or a setting. -/
def isKnown : Key → Bool
  | [part] => parts.any (matchesName part)
  | [part, name] => (setting? part name).isSome
  | _ => false

/-- Reads the text of a file of settings. -/
def read (s : String) : Except SettingsFault Settings := do
  let some d := Document.read? s | throw .unreadable
  let some c := takeAll {} d.root | throw .unreadable
  let unknown := d.keys.reverse.filter fun k => !isKnown k
  if !unknown.isEmpty then throw (.unknown unknown)
  if c.jobs < 0 then throw .negativeJobs
  if (Toggle.ofText? c.ui).isNone then throw (.badUi c.ui)
  return c

/-- The options of lowering that a file asks for. -/
def lowerOptions (c : Settings) : LowerOptions where
  debug := c.debug
  verify := c.verify
  maxDiagnostics := c.maxDiagnostics
  noOptimize := c.optimize == some false

end Settings

end Resumable
