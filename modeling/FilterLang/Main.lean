import FilterLang.CommandLine.Run
import Std.Time.DateTime
import Std.Time.Zoned
/-!
The program: reads the clock and the files that the command line names, and prints
the report.
-/

namespace FilterLang.Main

def firstDay : Int := 719163

/-- The moment a number of nanoseconds after the start of the year 1970. -/
def momentAt (nanos : Int) : DateTime :=
  let micros := nanos / 1000
  { date := (Date.ofOrdinal? (firstDay + micros / DateTime.microsPerDay)).getD
      Clock.placeholderDate
    clock := Clock.ofMicros (micros % DateTime.microsPerDay).toNat }

/-- How far local time is ahead of universal time at a moment, in seconds. Where
that is not known they are the same. -/
def localOffset (now : Std.Time.Timestamp) : IO Int := do
  try
    let rules ← Std.Time.Database.defaultGetLocalZoneRules
    return (rules.timezoneAt now).offset.second.val
  catch _ => return 0

/-- A host that tells the time at which it is made. -/
def hostNow : IO Host := do
  let now ← Std.Time.Timestamp.now
  let nanos := now.toNanosecondsSinceUnixEpoch.val
  return .plain (momentAt nanos) (momentAt (nanos + (← localOffset now) * 1000000000))

/-- Why a file cannot be read. -/
def reason : IO.Error → String
  | .noFileOrDirectory .. => "No such file or directory (os error 2)"
  | .permissionDenied .. => "Permission denied (os error 13)"
  | .inappropriateType .. => "Is a directory (os error 21)"
  | e => toString e

/-- The text of a file, or why it cannot be read. -/
def content (path : String) : IO (Except String String) := do
  try return .ok (← IO.FS.readFile path)
  catch e => return .error (reason e)

def contents (paths : List String) : IO (List (String × Except String String)) :=
  paths.mapM fun path => do return (path, ← content path)

def filesOf (known : List (String × Except String String)) : CommandLine.Files := fun path =>
  (known.lookup path).getD (.error "not read")

end FilterLang.Main

open FilterLang in
def main (args : List String) : IO UInt32 := do
  let request := CommandLine.request args
  let known ← Main.contents request.paths
  let report := request.report (← Main.hostNow) (Main.filesOf known)
  IO.print report.stdout
  IO.eprint report.stderr
  return report.code.toUInt32
