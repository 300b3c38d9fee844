import PlanArchive.CommandLine.Arguments
import PlanArchive.CommandLine.Run

/-!
# The command

Reads the arguments, the environment and the settings file, and writes what a command yields.
There is no connection to a server from here: a command that needs one fails once it is known which
server that would be.
-/

namespace PlanArchive.CommandLine

/-- The text of a file, unless there is no such file. -/
def readIfPresent (path : String) : IO (Option String) := do
  try
    return some (← IO.FS.readFile path)
  catch
    | .noFileOrDirectory .. => return none
    | _ => throw (.userError ("failed to read config file at " ++ path))

/-- Access rights as an octal mode gives them: read, write and execute for owner, group and others. -/
def rightsOf (mode : Nat) : IO.FileRight :=
  let right (bit : Nat) : IO.AccessRight := ⟨mode.testBit (bit + 2), mode.testBit (bit + 1),
    mode.testBit bit⟩
  ⟨right 6, right 3, right 0⟩

/-- Writes the settings file, which only its owner may read. -/
def writeSettings (directory path : String) (s : Settings) : IO Unit := do
  IO.FS.createDirAll directory
  IO.FS.writeFile path s.toText
  IO.setAccessRights path (rightsOf Settings.fileMode)

/-- Writes what a command yields and ends with its exit code. -/
def finish (outcome : Outcome) : IO UInt32 := do
  IO.print outcome.output
  match outcome.result with
  | .ok code => return UInt32.ofNat code
  | .error failure =>
    IO.eprintln ("Error: " ++ failure.message)
    return 1

end PlanArchive.CommandLine

open PlanArchive PlanArchive.CommandLine in
/-- Runs the command that the arguments ask for. -/
def main (arguments : List String) : IO UInt32 := do
  match parse arguments with
  | .error fault =>
    IO.eprintln ("planvault: " ++ fault.kind)
    return if fault = .helpRequested then 0 else 2
  | .ok invocation =>
    let configHome ← IO.getEnv "XDG_CONFIG_HOME"
    let home := (← IO.getEnv "HOME").getD "."
    let path := Settings.filePath configHome home
    let file ← readIfPresent path
    match invocation.command with
    | .init settings force =>
      let outcome := runInit path file.isSome settings force
      if outcome.result.isOk then writeSettings (Settings.directory configHome home) path settings
      finish outcome
    | command =>
      let environment : Settings.Overrides :=
        ⟨← IO.getEnv "PLANVAULT_DATABASE_URL", ← IO.getEnv "PLANVAULT_PARTITION_KEY"⟩
      let resolved := Settings.resolve invocation.overrides environment file
      finish (match command, resolved with
        | .dbInit, resolved => runDbInit resolved
        | _, .error fault => .failed (.settings fault)
        | _, .ok resolved => .failed (.database resolved.database.openError))
