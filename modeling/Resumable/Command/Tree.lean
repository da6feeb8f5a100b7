import Resumable.Command.Flag
import Resumable.Text.Blank
import Resumable.Version

/-!
# `Command.Tree`: the commands

One program has several commands, each with flags of its own besides those that all of them share. The
command of a command line is its first argument that is no flag and no value of one.

**Contents**
* `Action`, `Spec`: the commands.
* `find`: the command of a command line.
* `Spec.help`: what a command says about itself.
-/

namespace Resumable.Command

/-- The name of the program. -/
def program : String := "asyncexpr"

/-- What commands do. -/
inductive Action where
  /-- The program itself, which only knows its commands. -/
  | program
  | list | lower | run | batch | inspect | version
  | help
  /-- Scripts for shells, which are not written here. -/
  | completion
  deriving DecidableEq, Repr, Inhabited

/-- Which arguments a command takes besides its flags. -/
inductive Arity where
  | any | none | exactly (n : Nat)
  deriving DecidableEq, Repr

/-- A command. -/
structure Spec where
  action : Action
  name : String
  /-- The name with the arguments behind it. -/
  use : String
  short : String
  long : String := ""
  flags : List Flag := []
  arity : Arity := .any
  /-- The names of the commands below it, with what they do. -/
  topics : List (String × String) := []

/-- The flags of all commands. -/
def sharedFlags : List Flag :=
  [{ name := "config", kind := .text
     about := "path to asyncexpr.toml (default: search upward from the working directory)" },
   { name := "color", kind := .text, default := "auto", about := "colorize output (auto|on|off)" },
   { name := "timings", kind := .bool, about := "show per-phase lowering timings" },
   { name := "trace", kind := .text, about := "trace output file (- for stderr)" },
   { name := "trace-level", kind := .text, about := "trace level (off|phase|detail|debug)" },
   { name := "trace-mode", kind := .text, about := "trace storage (stream|ring|both)" },
   { name := "trace-ring-size", kind := .int, default := "4096"
     about := "events kept by the ring tracer" },
   { name := "cpu-profile", kind := .text, about := "write a CPU profile to this file" },
   { name := "mem-profile", kind := .text, about := "write a heap profile to this file on exit" },
   { name := "runtime-trace", kind := .text, about := "write a Go runtime trace to this file" }]

/-- The flags that tune lowering. -/
def lowerFlags : List Flag :=
  [{ name := "debug", kind := .bool, about := "name every state and skip the optimizer" },
   { name := "no-optimize", kind := .bool, about := "skip the optimizer" },
   { name := "verify", kind := .bool, about := "run the machine checker after lowering" }]

/-- The program itself. -/
def root : Spec where
  action := .program
  name := program
  use := program
  short := "Lower async and iterator expression trees into state machines"
  long := "asyncexpr lowers expression trees containing await and yield into resumable state machines, " ++
    "runs them and reports on the result"

/-- The commands in the order in which near misses are looked for. -/
def specs : List Spec :=
  [{ action := .list, name := "list", use := "list", short := "List the built-in samples", arity := .none },
   { action := .lower, name := "lower", use := "lower <sample>"
     short := "Lower a sample and print its state machines", arity := .exactly 1
     flags := lowerFlags ++
       [{ name := "dump", kind := .bool, about := "print the lowered expression tree" },
        { name := "source", kind := .bool, about := "print the input expression tree" },
        { name := "out", short := some 'o', kind := .text
          about := "write the machine report to a msgpack file" }] },
   { action := .run, name := "run", use := "run [sample...]"
     short := "Lower samples, run them and check their results", flags := lowerFlags },
   { action := .batch, name := "batch", use := "batch [sample...]"
     short := "Lower and run samples concurrently"
     flags := lowerFlags ++
       [{ name := "jobs", short := some 'j', kind := .int
          about := "samples lowered in parallel (0 = GOMAXPROCS)" },
        { name := "ui", kind := .text, default := "auto", about := "progress UI (auto|on|off)" },
        { name := "cache", kind := .bool, about := "reuse records from the report cache" },
        { name := "drop-cache", kind := .bool, about := "clear the report cache before running" },
        { name := "out", short := some 'o', kind := .text
          about := "write all records to a msgpack file" }] },
   { action := .inspect, name := "inspect", use := "inspect <report.mp>"
     short := "Print a machine report written by lower or batch", arity := .exactly 1
     flags := [{ name := "states", kind := .bool, about := "list every machine state" }] },
   { action := .version, name := "version", use := "version"
     short := "Show the build version and the report cache fingerprint", arity := .none
     flags :=
       [{ name := "hash", kind := .bool, about := "include git commit hash" },
        { name := "date", kind := .bool, about := "include build timestamp" },
        { name := "full", kind := .bool, about := "include commit and build timestamp" },
        { name := "format", kind := .text, default := "pretty"
          about := "output format (pretty|json)" }] },
   { action := .help, name := "help", use := "help [command]", short := "Help about any command"
     long := "Help provides help for any command in the application.\n" ++
       "Simply type asyncexpr help [path to command] for full details." },
   { action := .completion, name := "completion", use := "completion"
     short := "Generate the autocompletion script for the specified shell", arity := .none
     long := "Generate the autocompletion script for asyncexpr for the specified shell.\n" ++
       "See each sub-command's help for details on how to use the generated script.\n"
     topics := ["bash", "fish", "powershell", "zsh"].map fun shell =>
       (shell, "Generate the autocompletion script for " ++ shell) }]

namespace Spec

def isRoot (s : Spec) : Bool := s.action == .program

/-- Whether a command does something by itself. -/
def isRunnable (s : Spec) : Bool := s.action != .program && s.action != .completion

/-- The command with the name of the program. -/
def path (s : Spec) : String := if s.isRoot then program else program ++ " " ++ s.name

/-- The flag that asks for help. -/
def helpFlag (s : Spec) : Flag :=
  { name := "help", short := some 'h', kind := .bool, about := "help for " ++ s.name }

/-- The flag that asks for the version, which the program has. -/
def versionFlag : Flag :=
  { name := "version", short := some 'v', kind := .bool, about := "version for " ++ program }

/-- The flags that belong to a command; those of the program belong to all commands. -/
def ownFlags (s : Spec) : List Flag :=
  s.flags ++ [s.helpFlag] ++ (if s.isRoot then sharedFlags ++ [versionFlag] else [])

/-- All flags of a command. -/
def allFlags (s : Spec) : List Flag := s.ownFlags ++ (if s.isRoot then [] else sharedFlags)

/-- The flags that are known before the command is. -/
def knownFlags (s : Spec) : List Flag := s.flags ++ sharedFlags

/-! ### Help -/

/-- The commands below a command, with what they do; below the program are all of them. -/
def below (s : Spec) : List (String × String) :=
  if s.isRoot then (specs.mergeSort fun a b => !decide (b.name < a.name)).map fun c => (c.name, c.short)
  else s.topics

/-- How a command is called. -/
def usage (s : Spec) : String :=
  let hasMore := !s.below.isEmpty
  "Usage:" ++ (if s.isRunnable then "\n  " ++ program ++ " " ++ s.use ++ " [flags]" else "") ++
  (if hasMore then
    "\n  " ++ s.path ++ " [command]\n\nAvailable Commands:" ++
      String.join (s.below.map fun (name, short) => "\n  " ++ Text.padRight 11 name ++ " " ++ short)
   else "") ++
  "\n\nFlags:\n" ++ Flag.usage s.ownFlags ++
  (if s.isRoot then "" else "\n\nGlobal Flags:\n" ++ Flag.usage sharedFlags) ++
  (if hasMore then
    "\n\nUse \"" ++ s.path ++ " [command] --help\" for more information about a command."
   else "") ++ "\n"

/-- What a command says about itself. -/
def help (s : Spec) : String :=
  Text.trim (if s.long.isEmpty then s.short else s.long) ++ "\n\n" ++ s.usage

/-- What is wrong with the arguments of a command. -/
def arityFault? (s : Spec) (args : List String) : Option String :=
  match s.arity, args with
  | .any, _ | .none, [] => none
  | .none, a :: _ => some ("unknown command " ++ Text.quote a ++ " for " ++ Text.quote s.path)
  | .exactly n, args =>
    if args.length == n then none
    else some ("accepts " ++ toString n ++ " arg(s), received " ++ toString args.length)

end Spec

/-! ### Finding the command -/

/-- Whether an argument is a flag that takes the argument after it as its value. -/
def takesNext (flags : List Flag) (arg : String) : Bool :=
  let isBool (f : Option Flag) : Bool := f.any (·.kind == .bool)
  if arg.contains '=' then false
  else if arg.startsWith "--" then !isBool (flags.find? (·.name == (arg.drop 2).toString))
  else arg.startsWith "-" && arg.length == 2 &&
    !isBool (flags.find? fun f => f.short == arg.toList[1]?)

/-- The arguments that are no flags and no values of flags; `fuel` bounds their number. -/
def wordsOf (flags : List Flag) : Nat → List String → List String
  | 0, _ => []
  | _, [] => []
  | fuel + 1, a :: rest =>
    if a == "--" then []
    else if takesNext flags a then if rest.length ≤ 1 then [] else wordsOf flags fuel (rest.drop 1)
    else if !a.isEmpty && !a.startsWith "-" then a :: wordsOf flags fuel rest
    else wordsOf flags fuel rest

/-- Arguments without the first one that is a given word; `fuel` bounds their number. -/
def withoutWord (flags : List Flag) (word : String) : Nat → List String → List String
  | 0, as => as
  | _, [] => []
  | fuel + 1, a :: rest =>
    if a == "--" then a :: rest
    else if takesNext flags a then a :: rest.take 1 ++ withoutWord flags word fuel (rest.drop 1)
    else if !a.startsWith "-" && a == word then rest
    else a :: withoutWord flags word fuel rest

/-- The least number of letters to insert, leave out or replace to get from one word to another: one row
after the other, where `row` holds the numbers for the letters so far. -/
def distance (a b : List Char) : Nat :=
  let step (row : List Nat) (c : Char) : List Nat :=
    let start := row.headD 0 + 1
    (((row.zip (row.drop 1)).zip b).foldl (fun (out : List Nat) cell =>
      let ((diagonal, above), d) := cell
      let before := out.headD start
      min (min (above + 1) (before + 1)) (if c == d then diagonal else diagonal + 1) :: out)
      [start]).reverse
  (a.foldl step (List.range (b.length + 1))).getLastD 0

/-- The commands that a word may have been meant for. -/
def nearMisses (word : String) : List String :=
  let word := Text.lower word
  (specs.filter fun s => s.action != .help &&
    (distance word.toList s.name.toList ≤ 2 || s.name.startsWith word)).map (·.name)

/-- What is said about a word that is no command. -/
def unknownCommand (word : String) : String :=
  let near := nearMisses word
  "unknown command " ++ Text.quote word ++ " for " ++ Text.quote program ++
    (if near.isEmpty then ""
     else "\n\nDid you mean this?\n" ++ String.join (near.map fun n => "\t" ++ n ++ "\n"))

/-- The command of a command line with the arguments that are left for it, or a word that is none. -/
def find (args : List String) : Except String (Spec × List String) :=
  match wordsOf root.knownFlags args.length args with
  | [] => .ok (root, args)
  | word :: _ =>
    match specs.find? (·.name == word) with
    | some s => .ok (s, withoutWord root.knownFlags word args.length args)
    | none => .error word

end Resumable.Command
