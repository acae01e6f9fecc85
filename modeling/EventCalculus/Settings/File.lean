import EventCalculus.Settings.Basic
import EventCalculus.Text.Blank

/-!
# Settings files

A settings file is a JSON object with four sections.  A file that is missing,
cannot be read or holds no object gives the default settings, and so does one
whose date cannot be used; limits that cannot be used are replaced one by one.
-/

namespace EventCalculus

/-- What stands at the place of a settings file. -/
inductive SettingsFile where
  | missing
  | directory
  | content (source : String)

/-- Why the default settings are used. -/
inductive SettingsWarning where
  | json (file : String) (fault : Json.ReadFault)
  | directory (file : String)
  | shape (file : String)
  | invalid (file : String) (fault : SettingsFault)

/-- The wording of a warning. -/
def SettingsWarning.message : SettingsWarning -> String
  | .json file fault => "Invalid JSON in " ++ file ++ ": " ++ fault.message ++ ". Using defaults."
  | .directory file =>
      "Cannot read " ++ file ++ ": [Errno 21] Is a directory: " ++ Text.quoted file ++
        ". Using defaults."
  | .shape file => "Config in " ++ file ++ " is not an object. Using defaults."
  | .invalid file fault =>
      "Invalid settings in " ++ file ++ ": " ++ fault.message ++ ". Using defaults."

namespace SettingsFile

/-- A field of a section; a section that is no object has none. -/
def setting? (data : Value) (sectionName key : String) : Option Value :=
  (data.field? sectionName).bind fun fields => fields.field? key

/-- The depth limit; the default one in place of what is no positive integer. -/
def depthLimit (v : Option Value) : Value :=
  let standard : Value := .int EventStore.defaultMaxDepth
  match v with
  | some (.number (.int n)) => if n < 1 then standard else .int n
  | some (.bool true) => .bool true
  | _ => standard

/-- The size limit as a floating point number; the default one in place of what is no positive
number. -/
def sizeLimit (v : Option Value) : Except SettingsFault Value :=
  let standard : Value := .number (.float (Binary64.ofQuotient false 10 1))
  match v.bind Quantity.ofValue? with
  | none => .ok standard
  | some q =>
      if q.isAtMostZero then
        .ok standard
      else
        match q with
        | .truth _ => .ok (.number (.float (Binary64.ofQuotient false 1 1)))
        | .number (.int n) =>
            match Binary64.ofInt? n with
            | some x => .ok (.number (.float x))
            | none => .error .overflow
        | .number (.float x) => .ok (.number (.float x))
        | .undefined => .ok .nan

/-- A switch that is on when its value counts as an affirmative answer. -/
def switch (v : Option Value) (standard : Bool) : Value :=
  .bool ((v.map Value.isTruthy).getD standard)

/-- A value that counts as an affirmative answer, or another one. -/
def truthyOr (v : Option Value) (other : Value) : Value :=
  match v with
  | some given => if given.isTruthy then given else other
  | none => other

/-- The settings of an object with sections. -/
def settingsOf (home : Location) (data : Value) : Except SettingsFault Settings := do
  let maxLogSize ← sizeLimit (setting? data "log" "max_size_mb")
  Settings.make home {
    currentDate := (setting? data "engine" "current_date").getD .null
    maxTermDepth := depthLimit (setting? data "engine" "max_term_depth")
    logDirectory := (setting? data "log" "dir").getD .null
    logEnabled := switch (setting? data "log" "enabled") false
    maxLogSize := maxLogSize
    archiveFile := (setting? data "archive" "db_path").getD .null
    model := truthyOr (setting? data "llm" "model") (.text LanguageModel.defaultName)
    autoLearn := switch (setting? data "llm" "auto_learn") true }

/-- The default settings with a warning. -/
def fallBack (home : Location) (w : SettingsWarning) :
    Except SettingsFault (Settings × List SettingsWarning) :=
  .ok (Settings.defaults home, [w])

/-- The settings of a file and the warnings on the way; `file` names it. -/
def load (home : Location) (file : String) (f : SettingsFile) :
    Except SettingsFault (Settings × List SettingsWarning) :=
  match f with
  | .missing => .ok (Settings.defaults home, [])
  | .directory => fallBack home (.directory file)
  | .content source =>
      match Json.parse (String.ofList (Text.unifyNewlines source.toList)) with
      | .error (.tooManyDigits count) => .error (.numeral count)
      | .error fault => fallBack home (.json file fault)
      | .ok (.object fields) =>
          match settingsOf home (.object fields) with
          | .ok settings => .ok (settings, [])
          | .error (.timestamp fault) => fallBack home (.invalid file (.timestamp fault))
          | .error .depth => fallBack home (.invalid file .depth)
          | .error .logSize => fallBack home (.invalid file .logSize)
          | .error fault => .error fault
      | .ok _ => fallBack home (.shape file)

end SettingsFile
end EventCalculus
