import Resumable.Batch.Basic
import Resumable.Command.Shell
import Resumable.Sample.Catalog
import Resumable.Text.Json

/-!
# `Command.Actions`: what each command does

Samples are listed, lowered and run, one by one or as a batch, and reports are shown.
-/

namespace Resumable.Command.Shell

variable {m : Type → Type} [Monad m] [Host m]

/-! ### Samples -/

/-- The sample with a name. -/
def sample (name : String) : Shell m Sample :=
  match Sample.find? name with
  | some s => return s
  | none => throw ("unknown sample " ++ Text.quote name ++ " (see " ++ program ++ " list)")

/-- The samples with some names, or all of them. -/
def samples (names : List String) : Shell m (List Sample) :=
  if names.isEmpty then return Sample.catalog else names.mapM sample

/-- Lists the samples. -/
def list : Shell m Unit := do
  let width := (Sample.catalog.map fun s => Text.columns s.name).foldl max 0
  for s in Sample.catalog do
    printLine (s.name ++ Text.fill width (Text.columns s.name) ++ "  " ++
      Text.padRight 8 s.kind.text ++ " " ++ s.title)

/-- The record of a lowered sample. -/
def record (s : Sample) (l : Lowered) : Shell m Record :=
  match Record.ofMachines s.name l.machines l.phases with
  | .ok r => return { r with title := Bytes.ofString s.title }
  | .error f => throw f.message

/-- Builds the tree of a sample for a loop of its own. -/
def build (s : Sample) : Shell m Expr := do
  match ← work (do Sample.freshLoop; s.tree) with
  | .ok e => return e
  | .error f => failSample s.name f

/-- The rendering of a tree. -/
def dump (e : Expr) : Shell m Bytes := do
  let w := (← get).session.world
  return Bytes.ofString (e.dump w.literal)

/-- Lowers a sample and shows its machines. -/
def lowerSample (flags : Flags) : Shell m Unit := do
  let s ← sample (flags.args.headD "")
  let options ← lowerOptions flags
  let look ← style flags
  let e ← build s
  if flags.isSet "source" then print (← dump e)
  let l ← lower s.name options e
  let r ← record s l
  print (Report.machines look r)
  if flags.isSet "dump" then print (← dump l.tree)
  if look.timings then print r.timings.summary
  let path := (flags.text? "out").getD ""
  if !path.isEmpty then writeRecords path [r]

/-- Fails when samples did. -/
def tally (failed total : Nat) : Shell m Unit :=
  if failed > 0 then throw (toString failed ++ " of " ++ toString total ++ " samples failed")
  else pure ()

/-- Lowers and runs a sample; also tells whether it came to what it should. -/
def runSample (options : LowerOptions) (s : Sample) : Shell m (Record × Bool) := do
  let e ← build s
  let l ← lower s.name options e
  match ← work (s.execute l) with
  | .error f => failSample s.name f
  | .ok o =>
    let r ← record s l
    let w := (← get).session.world
    let fault := Sample.fault? w s o
    let r := r.withOutcome (o.value.map fun v => w.textOf (some v))
      (o.error.map fun e => (w.message? e).getD []) o.steps fault
    return (r, fault.isNone)

/-- Lowers and runs samples one after the other. -/
def runSamples (flags : Flags) : Shell m Unit := do
  let picked ← samples flags.args
  let options ← lowerOptions flags
  let look ← style flags
  let rs ← picked.mapM (runSample options)
  print (Report.table look (rs.map (·.1)))
  tally (rs.filter (!·.2)).length picked.length

/-! ### Batches -/

/-- The folder of the files of a cache. -/
def cacheFolder : Shell m String := do
  let given := (← get).settings.cacheFolder
  let folder ← if given.isEmpty then do
      let home ← ask Host.cacheHome
      pure (Path.join home program)
    else pure given
  match ← ask (Host.makeFolder folder) with
  | .ok _ => return Path.join folder "reports"
  | .error f => throw ("failed to open report cache: " ++ f.message "mkdir" folder)

/-- Takes the files of a cache from a folder. -/
def loadCache (folder : String) : Shell m Cache := do
  let mut files : List (String × Bytes) := []
  for name in ← ask (Host.names folder) do
    match ← ask (Host.read (Path.join folder name)) with
    | .ok bs => files := (name, bs) :: files
    | .error _ => pure ()
  return { files := some files }

/-- Removes the files of a cache. -/
def dropCache (folder : String) : Shell m Unit := do
  for name in ← ask (Host.names folder) do
    ask (Host.remove (Path.join folder name))

/-- Writes the files of a cache that were added. -/
def storeCache (folder : String) (before after : Cache) : Shell m Unit := do
  discard (ask (Host.makeFolder folder))
  for (name, bs) in after.files.getD [] do
    if (before.files.getD []).lookup name != some bs then
      discard (ask (Host.write (Path.join folder name) bs))

/-- Runs a batch with the cache in a folder, or without one. -/
def runBatch (request : Batch.Request) (folder : Option String) : Shell m Batch.Summary := do
  let before ← match folder with
    | some f => some <$> loadCache f
    | none => pure none
  match ← work ((Batch.run request).run { cache := before, tracer := (← get).tracer }) with
  | .error f => failSample program f
  | .ok (sum, progress) =>
    modify fun c => { c with tracer := progress.tracer }
    match folder, before, progress.cache with
    | some f, some before, some after => storeCache f before after
    | _, _, _ => pure ()
    return sum

/-- Lowers and runs samples as a batch. -/
def batch (flags : Flags) : Shell m Unit := do
  let picked ← samples flags.args
  let options ← lowerOptions flags
  let look ← style flags
  let settings := (← get).settings
  let ui := (flags.text? "ui").getD (if settings.ui.isEmpty then "auto" else settings.ui)
  if (Toggle.ofText? ui).isNone then throw (Toggle.badUi ui)
  let folder ← if (flags.bool? "cache").getD settings.cache then do
      let folder ← cacheFolder
      if flags.isSet "drop-cache" then dropCache folder
      pure (some folder)
    else pure none
  let request : Batch.Request :=
    { samples := picked, options, fingerprint := Version.current.fingerprint }
  let sum ← runBatch request folder
  print (Report.table look sum.records)
  if look.timings then
    print (Bytes.ofString "\nlowering phases (all samples, 0s wall):\n" ++ sum.phases.summary)
  let path := (flags.text? "out").getD ""
  if !path.isEmpty then writeRecords path sum.records
  tally sum.failed picked.length

/-! ### Reports and versions -/

/-- Shows a report. -/
def inspect (flags : Flags) : Shell m Unit := do
  let path := flags.args.headD ""
  let bs ← match ← ask (Host.read path) with
    | .ok bs => pure bs
    | .error .isFolder => throw (path ++ ": " ++ FileFault.isFolder.message "read" path)
    | .error f => throw ("failed to open report: " ++ f.message "open" path)
  let rs ← match Report.decode Pack.messagePack bs with
    | .ok rs => pure rs
    | .error (.schema name n) => throw (path ++ ": " ++ (ReportFault.schemaMessage name n).toText)
    | .error _ => throw (path ++ ": " ++ Report.malformedText bs)
  let look ← style flags
  print (Report.table look rs)
  if flags.isSet "states" then
    for r in rs do
      print ([10] ++ Report.machines look r)

/-- A text, or a word for an empty one. -/
def orUnknown (s : String) : String := if s.isEmpty then "unknown" else s

/-- Shows the version; `toolchain` is what the program was built with. -/
def version (toolchain : String) (flags : Flags) : Shell m Unit := do
  let full := flags.isSet "full"
  let v := Version.current
  let commit := if flags.isSet "hash" || full then [orUnknown (Text.trim v.commit)] else []
  let date := if flags.isSet "date" || full then [orUnknown (Text.trim Version.buildDate)] else []
  let name := orUnknown (Text.trim v.version)
  let format := (flags.text? "format").getD "pretty"
  match Text.lower format with
  | "json" =>
    let fields := [("tool", program), ("version", name), ("fingerprint", v.fingerprint),
      ("go", toolchain)] ++ commit.map (("git_commit", ·)) ++ date.map (("build_date", ·))
    let lines := fields.map fun (k, t) => "  " ++ Text.Json.string k ++ ": " ++ Text.Json.string t
    printLine ("\x7b\n" ++ ",\n".intercalate lines ++ "\n\x7d")
  | "pretty" =>
    let colored ← useColor flags
    let terminal ← ask Host.terminal
    let shown := if colored then v.colored terminal else name
    printLine (program ++ " " ++ shown ++ " (" ++ toolchain ++ ")")
    printLine ("cache fingerprint: " ++ v.fingerprint)
    commit.forM fun c => printLine ("commit: " ++ c)
    date.forM fun d => printLine ("built:  " ++ d)
  | _ => throw ("unsupported format " ++ Text.quote format ++ " (must be pretty or json)")

/-- Shows the help of a command; a topic that is none is complained about. -/
def help (flags : Flags) : Shell m Unit := do
  match find flags.args with
  | .ok (s, _) => print (Bytes.ofString s.help)
  | .error _ =>
    let topics := " ".intercalate (flags.args.map fun a => "`" ++ a ++ "`")
    complain ("Unknown help topic [" ++ topics ++ "]\n" ++ root.usage)

/-- Does what a command does. -/
def act (toolchain : String) (spec : Spec) (flags : Flags) : Shell m Unit :=
  match spec.action with
  | .list => list
  | .lower => lowerSample flags
  | .run => runSamples flags
  | .batch => batch flags
  | .inspect => inspect flags
  | .version => version toolchain flags
  | .help => help flags
  | .program | .completion => print (Bytes.ofString spec.help)

/-- Runs a command with its flags. -/
def runSpec (toolchain : String) (spec : Spec) (flags : Flags) : Shell m Unit := do
  if flags.isSet "help" then return ← print (Bytes.ofString spec.help)
  if spec.isRoot && flags.isSet "version" then
    return ← printLine (program ++ " version " ++ Version.current.version)
  if !spec.isRunnable then return ← print (Bytes.ofString spec.help)
  if let some e := spec.arityFault? flags.args then throw e
  loadSettings flags
  setUpTrace flags
  setUpProfiles flags
  act toolchain spec flags
  tidyUp flags

end Shell

/-- What a command line leaves behind. -/
structure Ending where
  exit : UInt32
  out : Bytes
  err : Bytes

/-- Runs a command line; `toolchain` is what the program was built with. -/
def run {m : Type → Type} [Monad m] [Host m] (toolchain : String) (args : List String) : m Ending := do
  let failed (out err : Bytes) (message : String) : Ending :=
    ⟨1, out, err ++ Bytes.ofString ("Error: " ++ message ++ "\n")⟩
  match find args with
  | .error word =>
    let e := failed [] [] (unknownCommand word)
    return { e with err := e.err ++ Bytes.ofString ("Run '" ++ program ++ " --help' for usage.\n") }
  | .ok (spec, rest) =>
    match Flag.read spec.allFlags rest with
    | .error f => return failed [] [] f.message
    | .ok flags =>
      let (r, c) ← (Shell.runSpec toolchain spec flags : Shell m Unit).run.run {}
      let c ← Shell.deliverTrace c
      match r with
      | .ok _ => return ⟨0, c.out, c.err⟩
      | .error e => return failed c.out c.err e

end Resumable.Command
