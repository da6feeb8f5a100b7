import Resumable.Command.Actions

/-!
# `Main`: the program

Runs a command line on the files of this machine.
-/

namespace Resumable.Command

/-- Why an operation on a file failed. -/
def FileFault.ofError : IO.Error → FileFault
  | .noFileOrDirectory .. => .absent
  | .inappropriateType .. => .notFolder
  | e => .other (toString e)

/-- The outcome of an operation on a file. -/
def tryFile (x : IO α) : IO (Except FileFault α) := do
  match ← x.toBaseIO with
  | .ok a => return .ok a
  | .error e => return .error (.ofError e)

instance : Host IO where
  folder := return (← IO.currentDir).toString
  read path := tryFile (return (← IO.FS.readBinFile path).toList)
  write path bs := tryFile (IO.FS.writeBinFile path ⟨bs.toArray⟩)
  makeFolder path := tryFile (IO.FS.createDirAll path)
  names path := do
    let folder := (← IO.currentDir) / path
    match ← tryFile folder.readDir with
    | .ok entries => return entries.toList.map (·.fileName)
    | .error _ => return []
  remove path := do
    let _ ← tryFile (IO.FS.removeFile path)
    return
  cacheHome := do
    match ← IO.getEnv "XDG_CACHE_HOME" with
    | some folder => return folder
    | none => return Path.join ((← IO.getEnv "HOME").getD "") ".cache"
  terminal := do (← IO.getStdout).isTty

end Resumable.Command

/-- Runs the command line. -/
def main (args : List String) : IO UInt32 := do
  let ending ← Resumable.Command.run "lean" args
  (← IO.getStdout).write ⟨ending.out.toArray⟩
  (← IO.getStderr).write ⟨ending.err.toArray⟩
  return ending.exit
