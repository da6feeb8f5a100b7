import Resumable.Report.Paint
import Resumable.Text.Blank

/-!
# `Version`: the version of the program

A version may be shown with its parts in colours, and a build is told from others by its fingerprint.
-/

namespace Resumable

/-- The version of a build, and the commit it was made from. -/
structure Version where
  version : String
  commit : String

namespace Version

/-- This build. -/
def current : Version := ⟨"0.1.0-dev", ""⟩

/-- When this build was made, where that is known. -/
def buildDate : String := ""

/-- The version with each of its three numbers in a colour; what follows them stays plain, and so does a
version without three numbers. -/
def colored (v : Version) (on : Bool) : String :=
  let isSuffix (c : Char) : Bool := c == '-' || c == '+'
  let core := v.version.toList.takeWhile fun c => !isSuffix c
  let suffix := v.version.toList.dropWhile fun c => !isSuffix c
  match (String.ofList core).splitOn "." with
  | major :: minor :: patch :: more =>
    Paint.major.text on major ++ "." ++ Paint.minor.text on minor ++ "." ++
      Paint.patch.text on (".".intercalate (patch :: more)) ++ String.ofList suffix
  | _ => v.version

/-- What tells a build from others. -/
def fingerprint (v : Version) : String :=
  let version := Text.trim v.version
  let version := if version.isEmpty then "dev" else version
  let commit := Text.trim v.commit
  if commit.isEmpty then version else version ++ "@" ++ commit

end Version

end Resumable
