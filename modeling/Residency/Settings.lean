import Residency.Log

/-!
# Settings

How a function is lowered: how much is logged and where to, by how many workers, and
whether the result is checked. The settings are built step by step from
`Residency.Settings.initial`, or read from three variables of the environment
(`Residency.Settings.read`). A variable that is not set has a default. All three
are looked at before the log is made: a value without meaning leaves the file of the
log alone, whichever variable it belongs to.

Two defaults are not the same everywhere: there are as many workers as the machine has processors,
and lowered code is checked in a debug build and in no other. `Residency.Settings.standard` and
`Residency.Settings.ofEnvironment` are those of a debug build.
-/

namespace Residency

/-- The settings of a lowering. -/
structure Settings where
  /-- Where messages go. -/
  log : Log := { level := .error }
  /-- By how many workers a function is lowered at most. At least one. -/
  jobs : Nat := 1
  /-- Is lowered code checked? -/
  verify : Bool
  deriving DecidableEq, Repr

/-- The variables that settings are read from. -/
structure Environment where
  /-- The description of the log. -/
  log : Option String := none
  /-- The number of workers. -/
  jobs : Option String := none
  /-- The switch of the check. -/
  verify : Option String := none
  deriving DecidableEq, Repr

/-- The variables as they are found, each as its bytes if it is there. One whose bytes are no text
is as good as not set. -/
def Environment.ofBytes (log jobs verify : Option ByteArray) : Environment where
  log := log.bind String.fromUTF8?
  jobs := jobs.bind String.fromUTF8?
  verify := verify.bind String.fromUTF8?

namespace Settings

/-- Settings without any choice made: one worker, errors to standard error, and a check if this is
a debug build. -/
def initial (debug : Bool) : Settings := { verify := debug }

/-- Settings without any choice made, in a debug build. -/
def standard : Settings := initial true

/-- The settings with a number of workers, which must not be zero. -/
def setJobs (c : Settings) (jobs : Nat) : Except Fault Settings :=
  if jobs = 0 then .error .noJobs else .ok { c with jobs := jobs }

/-- The settings with the check on or off. -/
def setVerify (c : Settings) (verify : Bool) : Settings := { c with verify := verify }

/-- The settings with a log. -/
def setLog (c : Settings) (log : Log) : Settings := { c with log := log }

/-- A number of workers: any from one to the greatest word of 64 bits. -/
def readJobs (text : String) : Except SettingError Nat :=
  match readNat (UInt64.size - 1) text.toList with
  | .ok (n + 1) => .ok (n + 1)
  | _ => .error (.jobs text)

/-- A switch: one is on and zero is off. -/
def readVerify (text : String) : Except SettingError Bool :=
  if text = "1" then .ok true
  else if text = "0" then .ok false
  else .error (.verify text)

/-- What must be well set. -/
def settle {α : Type} : Except SettingError α → Files SettingError α
  | .ok x => pure x
  | .error e => throw e

/-- The settings of an environment, in a debug build or another one, on a machine of so many
processors. -/
def read (debug : Bool) (processors : Nat) (env : Environment) : Files SettingError Settings := do
  let jobs ← match env.jobs with
    | some text => settle (readJobs text)
    | none => pure processors
  let verify ← match env.verify with
    | some text => settle (readVerify text)
    | none => pure debug
  -- Only the log changes a file, so it comes last.
  let log ← Log.ofText? env.log
  return ⟨log, jobs, verify⟩

/-- The settings of an environment, in a debug build. -/
def ofEnvironment (processors : Nat) (env : Environment) : Files SettingError Settings :=
  read true processors env

end Settings

end Residency
