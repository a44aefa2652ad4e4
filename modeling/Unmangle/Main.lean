import Unmangle.CommandLine.Run

/-!
# The program

Reads what the command line names, runs the command and prints what it leaves behind.
-/

namespace Unmangle.CommandLine

/-- The errors of the system that reading a file can meet, by their numbers. -/
def systemErrors : List (Nat × String) :=
  [(2, "No such file or directory"), (13, "Permission denied"), (20, "Not a directory"),
   (21, "Is a directory")]

/-- The number of an error of the system. Some calls report it negated. -/
def systemNumber? : IO.Error → Option Nat
  | .noFileOrDirectory _ code _ | .inappropriateType _ code _ | .permissionDenied _ code _ =>
    some code.toInt32.toInt.natAbs
  | _ => none

/-- The words of the system for an error, as far as its number is known. -/
def systemWords (error : IO.Error) : String :=
  match (systemNumber? error).bind fun number => (systemErrors.lookup number).map (number, ·) with
  | some (number, words) => s!"{words} (os error {number})"
  | none => toString error

/-- Reads standard input to its end. -/
partial def readToEnd (stream : IO.FS.Stream) (before : ByteArray) : IO ByteArray := do
  let chunk ← stream.read 65536
  if chunk.isEmpty then return before else readToEnd stream (before ++ chunk)

def Source.bytes : Source → IO ByteArray
  | .file path => IO.FS.readBinFile path
  | .standardInput => do readToEnd (← IO.getStdin) .empty

/-- Reads a source, keeping what went wrong. -/
def Source.attempt (source : Source) : IO (Except String ByteArray) := do
  try return .ok (← source.bytes) catch error => return .error (systemWords error)

/-- Reads all that a command may read and runs it. -/
def execute (inv : Invocation) : IO UInt32 := do
  let contents ← inv.sources.mapM fun source => return (source, ← source.attempt)
  let outcome := inv.run fun source => (contents.lookup source).getD (.error "not read")
  IO.print outcome.output
  if let some error := outcome.error then IO.eprintln s!"error: {error.message}"
  return .ofNat outcome.exitCode

end Unmangle.CommandLine

open Unmangle.CommandLine in
def main (args : List String) : IO UInt32 :=
  match parse? args with
  | none => do
    IO.eprintln "usage: [options] (render INPUT | frame INPUT --index N) [options]"
    return 2
  | some .version => do
    IO.print versionText
    return 0
  | some (.invoke inv) => execute inv
