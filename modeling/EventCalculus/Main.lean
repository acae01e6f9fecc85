import EventCalculus.Archive.File
import EventCalculus.Audit.Size
import EventCalculus.Console.Loop
import EventCalculus.Engine.Opening
import EventCalculus.Settings.File
import Std.Time

/-!
# The command line

Reads the settings, restores the archive, and answers the lines of standard input
until the session is left.  The archive and the audit log are written back after
every line that changes them.
-/

namespace EventCalculus
namespace CommandLine

/-- What stands at a place in the file system. -/
def readPlace (place : Location) : IO SettingsFile := do
  try
    return .content (← IO.FS.readFile place.text)
  catch
    | .noFileOrDirectory .. => return .missing
    | _ => return .directory

/-- Writes a file and makes its directory, if need be. -/
def writePlace (place : Location) (content : String) : IO Unit := do
  let directory : Location := ⟨place.root, place.parts.dropLast⟩
  IO.FS.createDirAll directory.text
  IO.FS.writeFile place.text content

/-- The present instant in universal time. -/
def now : IO Instant := do
  let stamp ← Std.Time.Timestamp.now
  let t := (Std.Time.DateTime.ofTimestampWithZone stamp Std.Time.TimeZone.UTC).toPlainDateTime
  return ⟨⟨t.date.year.toInt.toNat, t.date.month.val.toNat, t.date.day.val.toNat⟩,
    t.time.hour.val.toNat, t.time.minute.val.toNat, t.time.second.val.toNat,
    t.time.nanosecond.val.toNat / 1000⟩

/-- The values of the environment variables that override settings. -/
def overrides : IO Settings.Overrides := do
  let names := ["CHRONICLE_CURRENT_DATE", "CHRONICLE_LOG_DIR", "CHRONICLE_DB", "GROQ_MODEL"]
  let values ← names.mapM fun name => do return (name, ← IO.getEnv name)
  return Settings.Overrides.ofEnvironment fun name => (findValue? name values).join

/-- The settings of the file below the home directory and of the environment. -/
def settings (home : Location) : IO Settings := do
  let place := home.append [".chronicle", "config.json"]
  let given ← overrides
  let file ← readPlace place
  let loaded : Except SettingsFault (Settings × List SettingsWarning) := do
    let (base, mishaps) ← SettingsFile.load home place.text file
    return (← base.override home given, mishaps)
  match loaded with
  | .ok (settings, mishaps) =>
      for mishap in mishaps do
        IO.eprintln mishap.message
      return settings
  | .error fault => throw (IO.userError fault.message)

/-- The directory of the audit log. -/
def logDirectory (home : Location) (s : Settings) : Location :=
  s.logDirectory.getD (home.append [".chronicle", "logs"])

/-- The audit log, if the settings enable one, continued from its file. -/
def audit (home : Location) (s : Settings) : IO (Option AuditLog) := do
  if s.isLogEnabled then
    let i ← now
    match bytesOfMegabytes s.maxLogSize.toValue with
    | .error fault => throw (IO.userError fault.message)
    | .ok maxBytes =>
        let log := AuditLog.empty maxBytes fun _ => i
        match ← readPlace ((logDirectory home s).append [AuditLog.currentName]) with
        | .content source =>
            let lines := (Text.pieces '\n' source.toList).dropLast.map String.ofList
            return some { log with current := some lines }
        | _ => return some log
  else
    return none

/-- The archive of a file; a file that is missing holds none. -/
def archive (s : Settings) : IO Archive := do
  match ← readPlace s.archiveFile with
  | .missing => return .empty
  | .directory => throw (IO.userError ("Cannot read " ++ s.archiveFile.text))
  | .content source =>
      match Archive.ofFileText? source with
      | some a => return a
      | none => throw (IO.userError ("No archive: " ++ s.archiveFile.text))

/-- Writes the files of an audit log and forgets the closed ones. -/
def keepAudit (directory : Location) (log : AuditLog) : IO AuditLog := do
  for file in log.files do
    writePlace (directory.append [file.name]) (String.join (file.lines.map fun l => l ++ "\n"))
  return { log with closed := [] }

/-- Writes back what changed between two states of a console. -/
def keep (home : Location) (s : Settings) (before after : Console) : IO Console := do
  if before.archive.fileText ≠ after.archive.fileText then
    writePlace s.archiveFile after.archive.fileText
  match after.engine.audit with
  | none => return after
  | some log =>
      let kept ← keepAudit (logDirectory home s) log
      return { after with engine := { after.engine with audit := some kept } }

/-- The console with the clock of its audit log set. -/
def setClock (c : Console) : IO Console := do
  let i ← now
  return { c with engine := c.engine.note fun log => { log with clock := fun _ => i } }

/-- Shows text at once. -/
def display (text : String) : IO Unit := do
  IO.print text
  (← IO.getStdout).flush

/-- Answers the lines of standard input until the session is left or the input ends. -/
def converse (home : Location) (s : Settings) (start : Console) : IO Unit := do
  let input ← IO.getStdin
  let mut c := start
  let mut isOpen := true
  while isOpen do
    display "chronicle> "
    let text ← input.getLine
    let line := Text.trim text
    if text = "" then
      display farewell
      isOpen := false
    else if line ≠ "" then
      let before ← setClock c
      let shown := before.respond line
      display shown.output
      for warning in shown.warnings do
        IO.eprintln warning.message
      c ← keep home s before shown.console
      match shown.answer with
      | .ok goesOn => isOpen := goesOn
      | .error fault => throw (IO.userError fault.message)

/-- Runs a session. -/
def run : IO Unit := do
  let home := Location.ofText ((← IO.getEnv "HOME").getD "/")
  let s ← settings home
  let today := (← now).date
  match Engine.ofSettings s (.date today) (← audit home s) with
  | .error fault => throw (IO.userError fault.message)
  | .ok engine =>
      let c : Console := ⟨engine, ← archive s, s.archiveFile.text, none⟩
      display (showLine banner)
      match c.start with
      | (.error fault, _) => throw (IO.userError fault.message)
      | (.ok shown, restored) =>
          display shown
          converse home s (← keep home s c restored)

end CommandLine
end EventCalculus

/-- Runs a session and reports what stops it. -/
def main : IO UInt32 := do
  try
    EventCalculus.CommandLine.run
    return 0
  catch e =>
    IO.eprintln (toString e)
    return 1
