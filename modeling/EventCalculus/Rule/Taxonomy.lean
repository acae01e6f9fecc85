import EventCalculus.OrderedMap
import EventCalculus.Rule.Basic
import EventCalculus.Value.Construction

/-!
# The verb taxonomy

A taxonomy is a list of entries in order of priority.  An entry recognises
verbs, by a table or by how they begin, and gives each a domain; its template
makes the rules of a verb for a number of arguments.  The first entry that
recognises a verb decides its rules.
-/

namespace EventCalculus

/-- How an entry recognises verbs. -/
inductive VerbMatcher where
  | exact (domains : List (String × String))
  | leading (beginnings : List String)
deriving DecidableEq

/-- Which rules an entry makes: the fluent starts, ends, replaces its previous value, or starts
while another one ends. -/
inductive Template where
  | accumulate
  | terminate
  | replace
  | complete
deriving DecidableEq

/-- An entry of a taxonomy. -/
structure VerbPattern where
  name : String
  matcher : VerbMatcher
  template : Template
deriving DecidableEq

/-- Why a taxonomy cannot make the rules of a verb. -/
inductive TaxonomyFault where
  | name (fault : TermFault)
  | noCompletion (verb : String)

/-!
# Matchers
-/

/-- What follows one of the beginnings and can name a domain. -/
def domainAfter? (verb : String) (beginning : String) : Option String :=
  if beginning.toList.isPrefixOf verb.toList then
    let rest := String.ofList (verb.toList.drop beginning.toList.length)
    if isFunctorText rest then some rest else none
  else
    none

/-- The domain of a verb that is recognised. -/
def VerbMatcher.domain? (m : VerbMatcher) (verb : String) : Option String :=
  match m with
  | .exact domains => findValue? verb domains
  | .leading beginnings => beginnings.findSome? (domainAfter? verb)

/-!
# Templates
-/

theorem isVariableText_value (n : Nat) : isVariableText ("Value" ++ toString n) = true := by
  have hword : ∀ c ∈ 'a' :: 'l' :: 'u' :: 'e' :: Nat.toDigits 10 n, isWordChar c = true := by
    intro c hc
    simp only [List.mem_cons] at hc
    rcases hc with rfl | rfl | rfl | rfl | hc
    · decide
    · decide
    · decide
    · decide
    · have hdigit := Nat.isDigit_of_mem_toDigits (by decide) (by decide) hc
      simp [isWordChar, Char.isAlphanum, hdigit]
  have hnone : ('a' :: 'l' :: 'u' :: 'e' :: Nat.toDigits 10 n).dropWhile isWordChar = [] := by
    have hdrop := @List.dropWhile_append_of_pos _ _ _ [] hword
    simpa using hdrop
  simp [isVariableText, isIdentifier, hnone, isVariableStart, isIdentifierEnd]

/-- The variable of the only value. -/
def valueVariable : VariableName :=
  ⟨"Value", by decide +kernel⟩

/-- The variable of one of several values. -/
def numberedVariable (n : Nat) : VariableName :=
  ⟨"Value" ++ toString n, isVariableText_value n⟩

/-- The variables for the arguments of a verb and its fluent. -/
def slotVariables : Nat -> List VariableName
  | 0 => []
  | 1 => [subjectVariable]
  | 2 => [subjectVariable, valueVariable]
  | n + 3 => subjectVariable :: (List.range (n + 2)).map fun i => numberedVariable (i + 1)

/-- A name applied to the variables of its arguments. -/
def slotCompound (name : String) (arity : Nat) : Except TaxonomyFault Compound :=
  match Functor.ofText? name with
  | some f => .ok ⟨f, (slotVariables arity).map .var⟩
  | none => .error (.name (.functorName (.text name)))

/-- A built-in rule of a verb for a domain. -/
def slotRule (effect : Effect) (exclusive : Bool) (verb domain : String) (arity : Nat) :
    Except TaxonomyFault Rule := do
  let event ← slotCompound verb arity
  let fluent ← slotCompound domain arity
  return ⟨event, effect, fluent, exclusive, .builtin⟩

/-- The verbs that end one fluent and start another: the ended and the started domain. -/
def completionVerbs : List (String × String × String) :=
  [("finished_learning", "learning", "knows")]

/-- The rules that a template makes for a verb, its domain and a number of arguments. -/
def Template.rules (t : Template) (verb domain : String) (arity : Nat) :
    Except TaxonomyFault (List Rule) :=
  match t with
  | .accumulate => do return [← slotRule .initiates false verb domain arity]
  | .terminate => do return [← slotRule .terminates false verb domain arity]
  | .replace => do return [← slotRule .initiates true verb domain arity]
  | .complete =>
      match findValue? verb completionVerbs with
      | some (ended, started) => do
          return [← slotRule .terminates false verb ended arity,
            ← slotRule .initiates false verb started arity]
      | none => .error (.noCompletion verb)

/-- The rules of an entry for a verb, if the entry recognises it. -/
def VerbPattern.rulesFor? (p : VerbPattern) (verb : String) (arity : Nat) :
    Except TaxonomyFault (Option (List Rule)) :=
  match p.matcher.domain? verb with
  | some domain => (p.template.rules verb domain arity).map some
  | none => .ok none

/-!
# Taxonomies
-/

/-- A list of entries in order of priority. -/
abbrev Taxonomy := List VerbPattern

namespace Taxonomy

/-- Verbs that start a fluent next to others. -/
def accumulatingVerbs : List (String × String) :=
  [
    ("learned", "knows"), ("studied", "knows"), ("mastered", "knows"), ("met", "knows"),
    ("joined", "member_of"), ("bought", "has"), ("acquired", "has"), ("obtained", "has"),
    ("got", "has"), ("started_liking", "likes"), ("started_disliking", "dislikes"),
    ("got_pet", "has_pet"), ("started_business", "owns"), ("founded", "owns"),
    ("started_project", "working_on"), ("started_learning", "learning")]

/-- Verbs that end a fluent. -/
def terminatingVerbs : List (String × String) :=
  [
    ("left", "member_of"), ("quit", "member_of"), ("sold", "has"), ("lost", "has"),
    ("divorced", "married_to"), ("closed_business", "owns"), ("sold_business", "owns"),
    ("left_company", "employed_at"), ("lost_pet", "has_pet"), ("stopped_liking", "likes"),
    ("stopped_disliking", "dislikes"), ("finished_project", "working_on"),
    ("abandoned_project", "working_on")]

/-- Verbs that start a fluent in place of the previous one. -/
def singularVerbs : List (String × String) :=
  [
    ("moved_to", "lives_in"), ("relocated_to", "lives_in"), ("married", "married_to"),
    ("hired_at", "employed_at"), ("joined_company", "employed_at")]

/-- The built-in taxonomy.  Completion comes first because its verb also begins like one that
terminates. -/
def standard : Taxonomy :=
  [
    ⟨"completion", .exact (completionVerbs.map fun (verb, _, started) => (verb, started)),
      .complete⟩,
    ⟨"accumulating", .exact accumulatingVerbs, .accumulate⟩,
    ⟨"accumulating_prefix", .leading ["started_"], .accumulate⟩,
    ⟨"terminating", .exact terminatingVerbs, .terminate⟩,
    ⟨"terminating_prefix", .leading ["stopped_", "quit_", "ended_", "finished_"], .terminate⟩,
    ⟨"singular", .exact singularVerbs, .replace⟩,
    ⟨"singular_prefix", .leading ["became_", "set_", "got_", "changed_"], .replace⟩]

/-- The first entry that recognises a verb. -/
def find? (taxonomy : Taxonomy) (verb : String) : Option VerbPattern :=
  List.find? (fun p => (p.matcher.domain? verb).isSome) taxonomy

/-- The rules of a verb for a number of arguments.  There are none without arguments, because
then there is no subject. -/
def classify (taxonomy : Taxonomy) (verb : String) (arity : Nat) :
    Except TaxonomyFault (List Rule) :=
  if arity = 0 then
    .ok []
  else
    match taxonomy.find? verb with
    | none => .ok []
    | some p => (p.rulesFor? verb arity).map fun rules => rules.getD []

end Taxonomy
end EventCalculus
