import EventCalculus.Value.Basic

/-!
# Forms

A form says which fields an object may have: those that have to be there, and
those that may be left out.  The order of the fields does not matter.
-/

namespace EventCalculus

/-- The keys of fields that have to be there, and of those that may be left out. -/
structure FieldForm where
  required : List String
  optional : List String
deriving DecidableEq

/-- Why fields do not fit a form. -/
inductive FormFault where
  | missing (key : String)
  | unknown (key : String)
deriving DecidableEq

/-- What is said about fields that do not fit a form. -/
def FormFault.message : FormFault -> String
  | .missing key => "Missing field: " ++ key
  | .unknown key => "Unknown field: " ++ key

namespace FieldForm

/-- A field with this key may be there. -/
def knows (form : FieldForm) (key : String) : Bool :=
  form.required.contains key || form.optional.contains key

/-- The first required key that has no field, or else the first field that is not known. -/
def fault? (form : FieldForm) (fields : List (String × Value)) : Option FormFault :=
  match form.required.find? fun key => (findValue? key fields).isNone with
  | some key => some (.missing key)
  | none =>
      (fields.find? fun field => !form.knows field.1).map fun field => .unknown field.1

/-- The fields, if they fit the form. -/
def check (form : FieldForm) (fields : List (String × Value)) :
    Except FormFault (List (String × Value)) :=
  match form.fault? fields with
  | some fault => .error fault
  | none => .ok fields

end FieldForm
end EventCalculus
