import Std.Time.DateTime.Timestamp
import RubyIndex.CommandLine.Run
import RubyIndex.Files.Bundle
import RubyIndex.Json.Parser

/-!
# The program

The files to work on come as a bundle on standard input.  New directories and files are made in the
end.
-/

namespace RubyIndex
namespace CommandLine

/-- All lines of a stream. -/
partial def readAll (stream : IO.FS.Stream) (text : String) : IO String := do
  let line ← stream.getLine
  if line.isEmpty then pure text else readAll stream (text ++ line)

/-- The configuration that the environment gives. -/
def configOfEnvironment : IO Config := do
  let home ← IO.getEnv "RUBYSCOPE_HOME"
  let snapshot ← IO.getEnv "RUBYSCOPE_SNAPSHOT"
  let userHome ← IO.getEnv "HOME"
  pure (.ofHome (home.getD (Path.join (userHome.getD ".") ".rubyscope")) snapshot)

/-- Seconds since the Unix epoch. -/
def currentTime : IO UInt64 := do
  let now ← Std.Time.Timestamp.now
  pure (UInt64.ofNat now.toSecondsSinceUnixEpoch.val.toNat)

/-- Makes a directory given by its place. -/
def makeNew (place : List String) : IO Unit :=
  IO.FS.createDirAll ("/" ++ "/".intercalate place)

/-- Writes a file given by its place. -/
def writeNew (place : List String) (f : File) : IO Unit := do
  IO.FS.writeBinFile ("/" ++ "/".intercalate place) (ByteArray.mk f.bytes.toArray)

end CommandLine
end RubyIndex

open RubyIndex in
/-- Runs the program on its arguments. -/
def main (words : List String) : IO UInt32 := do
  let bundle ← CommandLine.readAll (← IO.getStdin) ""
  let directory := Path.segments (← IO.currentDir).toString
  let env : CommandLine.Environment := {
    directory
    config := ← CommandLine.configOfEnvironment
    now := ← CommandLine.currentTime }
  let files := Bundle.files directory ((Json.parse? bundle).getD .null)
  let outcome := CommandLine.run env files words
  for place in outcome.files.directories do
    if (files.entry? place).isNone then CommandLine.makeNew place
  for (place, f) in outcome.files.files do
    if (files.files.find? place).isNone then CommandLine.writeNew place f
  IO.print outcome.output
  IO.eprint outcome.diagnostics
  pure outcome.exitCode
