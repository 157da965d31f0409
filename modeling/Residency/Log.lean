import Residency.Directory
import Residency.Level
import Residency.Failure

/-!
# Where messages go

A log has a level and an outlet: standard error, or a file. A file is emptied when the
log is made, and messages are appended to it. A message above the level of the log is
dropped; a message of level zero is a fault, whatever the level of the log is.

A log is described by a text, `LEVEL` or `PATH:LEVEL`, where the path `-` stands for
standard error (`Residency.Log.ofText`). The level is looked at before the file is
emptied, so a text without meaning leaves every file alone.

Whatever touches files is a change of a `Residency.Directory` that may fail; the
directory outlives the failure.
-/

namespace Residency

/-- Changes of a directory that may fail. -/
abbrev Files (ε : Type) := EStateM ε Directory

/-! ### Logs -/

/-- Where messages go. -/
inductive Outlet
  /-- Standard error. -/
  | stderr
  /-- A file. -/
  | file (path : String)
  deriving DecidableEq, Repr

/-- A log. -/
structure Log where
  /-- How much is logged. -/
  level : Level
  /-- Where it goes. -/
  outlet : Outlet := .stderr
  deriving DecidableEq, Repr

/-- A line comes to where messages go. What goes to standard error leaves no trace in a
file. -/
def Outlet.put (line : String) (d : Directory) : Outlet → Directory
  | .stderr => d
  | .file path => d.append path (line ++ "\n")

namespace Log

/-- A log to a file, which is emptied. -/
def toFile {ε : Type} (level : Level) (path : String) : Files ε Log := do
  modify fun d => d.create path
  return ⟨level, .file path⟩

/-- The level of a text. -/
def readLevel (text : List Char) : Except SettingError Level :=
  match readNat 255 text with
  | .error e => .error (.levelNumeral (String.ofList text) e)
  | .ok n =>
    match Level.ofNum? n with
    | some l => .ok l
    | none => .error (.levelTooHigh n)

/-- What the description of a log means: its level, and the path of its file if it has one. -/
def readDescription (spec : List Char) : Except SettingError (Level × Option (List Char)) :=
  match spec.dropWhile (· != ':') with
  | [] => (readLevel spec).map fun l => (l, none)
  | _ :: level =>
    if level.contains ':' then .error .logForm
    else
      let path := spec.takeWhile (· != ':')
      (readLevel level).map fun l => (l, if path = ['-'] then none else some path)

/-- The log of a description. -/
def ofText (spec : String) : Files SettingError Log :=
  match readDescription spec.toList with
  | .error e => throw e
  | .ok (level, none) => return { level := level }
  | .ok (level, some path) => toFile level (String.ofList path)

/-- The log of a description that may be missing: errors go to standard error then. -/
def ofText? : Option String → Files SettingError Log
  | none => return { level := .error }
  | some spec => ofText spec

/-- Will a message of a level be logged? -/
def admits (log : Log) (l : Level) : Bool := log.level.admits l

/-- A message is logged. -/
def message (log : Log) (l : Level) (text : String) : Files Fault Unit :=
  if l.num ≤ log.level.num then
    if l = .disabled then throw .nothingAtLevelZero
    else modify fun d => log.outlet.put (l.line text) d
  else pure ()

end Log

end Residency
