import EventCalculus.Calendar.Timestamp
import EventCalculus.Json.Parser
import EventCalculus.Settings.Location
import EventCalculus.Settings.Quantity
import EventCalculus.Statement.Model
import EventCalculus.Store.Basic
import EventCalculus.Value.Form

/-!
# Settings

The settings of an engine and of what works around it.  They are made of values:
the date becomes a timestamp, the limits have to be positive, and the places of
files are put into normal form.  The two switches and the name of the model are
kept as they are given.
-/

namespace EventCalculus

/-- The settings of an engine, its log, its archive and its language model. -/
structure Settings where
  currentDate : Option String
  maxTermDepth : Quantity
  logDirectory : Option Location
  logEnabled : Value
  maxLogSize : Quantity
  archiveFile : Location
  model : Value
  autoLearn : Value

/-- The engine writes an audit log. -/
def Settings.isLogEnabled (s : Settings) : Bool :=
  s.logEnabled.isTruthy

/-- Why values make no settings. -/
inductive SettingsFault where
  | timestamp (fault : TimestampFault)
  | depth
  | logSize
  | kind
  | overflow
  | home
  | numeral (count : Nat)
  | form (fault : FormFault)

/-- What is said about values that make no settings. -/
def SettingsFault.message : SettingsFault -> String
  | .timestamp fault => fault.message
  | .depth => "max_term_depth must be at least 1"
  | .logSize => "max_log_size_mb must be positive"
  | .kind => "setting of an unexpected kind"
  | .overflow => "int too large to convert to float"
  | .home => "Could not determine home directory."
  | .numeral count => tooManyDigitsMessage count
  | .form fault => fault.message

/-- The values that settings are made of. -/
structure SettingsInput where
  currentDate : Value := .null
  maxTermDepth : Value := .int EventStore.defaultMaxDepth
  logDirectory : Value := .null
  logEnabled : Value := .bool false
  maxLogSize : Value := .number (.float (Binary64.ofQuotient false 10 1))
  archiveFile : Value := .null
  model : Value := .text LanguageModel.defaultName
  autoLearn : Value := .bool true

namespace SettingsInput

/-- The fields that give values for settings; each of them may be left out. -/
def form : FieldForm :=
  ⟨[], ["current_date", "max_term_depth", "log_dir", "log_enabled", "max_log_size_mb", "db_path",
    "model", "auto_learn"]⟩

/-- The values that fields give; what is left out keeps its standard value. -/
def ofFields (fields : List (String × Value)) : Except FormFault SettingsInput := do
  let given ← form.check fields
  let standard : SettingsInput := {}
  let value (key : String) (other : Value) : Value := (findValue? key given).getD other
  return {
    currentDate := value "current_date" standard.currentDate
    maxTermDepth := value "max_term_depth" standard.maxTermDepth
    logDirectory := value "log_dir" standard.logDirectory
    logEnabled := value "log_enabled" standard.logEnabled
    maxLogSize := value "max_log_size_mb" standard.maxLogSize
    archiveFile := value "db_path" standard.archiveFile
    model := value "model" standard.model
    autoLearn := value "auto_learn" standard.autoLearn }

end SettingsInput

/-- The moment that a value gives. -/
def Moment.ofValue : Value -> Moment
  | .text s => .text s
  | v => .other v

namespace Settings

/-- The timestamp of a date, if there is one. -/
def readDate : Value -> Except SettingsFault (Option String)
  | .null => .ok none
  | v => ((Moment.ofValue v).timestamp.mapError .timestamp).map some

/-- The quantity of a value. -/
def readQuantity (v : Value) : Except SettingsFault Quantity :=
  match Quantity.ofValue? v with
  | some q => .ok q
  | none => .error .kind

/-- The location that a text names. -/
def readLocation (home : Location) (v : Value) : Except SettingsFault Location :=
  match v with
  | .text s =>
      match (Location.ofText s).expand? home with
      | some l => .ok l
      | none => .error .home
  | _ => .error .kind

/-- The directory of the log, if there is one. -/
def readDirectory (home : Location) : Value -> Except SettingsFault (Option Location)
  | .null => .ok none
  | v => (readLocation home v).map some

/-- The file of the archive unless another one is named. -/
def defaultArchive (home : Location) : Location :=
  home.append [".chronicle", "events.db"]

/-- The file of the archive. -/
def readArchive (home : Location) : Value -> Except SettingsFault Location
  | .null => .ok (defaultArchive home)
  | v => readLocation home v

/-- The settings that values make. -/
def make (home : Location) (i : SettingsInput) : Except SettingsFault Settings := do
  let currentDate ← readDate i.currentDate
  let maxTermDepth ← readQuantity i.maxTermDepth
  if maxTermDepth.isLess 1 then
    .error .depth
  else
    let maxLogSize ← readQuantity i.maxLogSize
    if maxLogSize.isAtMostZero then
      .error .logSize
    else
      let logDirectory ← readDirectory home i.logDirectory
      let archiveFile ← readArchive home i.archiveFile
      return {
        currentDate := currentDate
        maxTermDepth := maxTermDepth
        logDirectory := logDirectory
        logEnabled := i.logEnabled
        maxLogSize := maxLogSize
        archiveFile := archiveFile
        model := i.model
        autoLearn := i.autoLearn }

/-- The settings that fields make. -/
def ofFields (home : Location) (fields : List (String × Value)) :
    Except SettingsFault Settings := do
  let i ← (SettingsInput.ofFields fields).mapError .form
  make home i

/-- The settings without any given value. -/
def defaults (home : Location) : Settings :=
  {
    currentDate := none
    maxTermDepth := .number (.int EventStore.defaultMaxDepth)
    logDirectory := none
    logEnabled := .bool false
    maxLogSize := .number (.float (Binary64.ofQuotient false 10 1))
    archiveFile := defaultArchive home
    model := .text LanguageModel.defaultName
    autoLearn := .bool true }

/-!
# Overrides
-/

/-- Texts that take the place of settings; naming a directory enables the log. -/
structure Overrides where
  currentDate : Option String
  logDirectory : Option String
  archiveFile : Option String
  model : Option String
deriving DecidableEq

/-- The overrides of environment variables; empty ones count as missing. -/
def Overrides.ofEnvironment (setting? : String -> Option String) : Overrides :=
  let nonempty (name : String) : Option String := (setting? name).filter fun s => s ≠ ""
  ⟨nonempty "CHRONICLE_CURRENT_DATE", nonempty "CHRONICLE_LOG_DIR", nonempty "CHRONICLE_DB",
    nonempty "GROQ_MODEL"⟩

/-- Nothing is overridden. -/
def Overrides.isEmpty (o : Overrides) : Bool :=
  o.currentDate.isNone && o.logDirectory.isNone && o.archiveFile.isNone && o.model.isNone

/-- The settings with overrides in their places. -/
def override (home : Location) (s : Settings) (o : Overrides) : Except SettingsFault Settings := do
  let currentDate ← match o.currentDate with
    | none => pure s.currentDate
    | some date => readDate (.text date)
  let logDirectory ← match o.logDirectory with
    | none => pure s.logDirectory
    | some directory => readDirectory home (.text directory)
  let archiveFile ← match o.archiveFile with
    | none => pure s.archiveFile
    | some file => readArchive home (.text file)
  return { s with
    currentDate := currentDate
    logDirectory := logDirectory
    logEnabled := if o.logDirectory.isSome then .bool true else s.logEnabled
    archiveFile := archiveFile
    model := (o.model.map Value.text).getD s.model }

end Settings
end EventCalculus
