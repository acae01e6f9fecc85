import EventCalculus.Proofs.Outcomes
import EventCalculus.Rule.Compilation
import Mathlib.Data.List.DropRight

/-!
# Records and their data

A record that was read from data is read from its own data again.  Reading trims
the names of fluents and turns an empty pattern into none, so this holds of what
was read and not of every record.
-/

namespace EventCalculus

theorem Text.trimChars_trimChars (cs : List Char) :
    trimChars (trimChars cs) = trimChars cs := by
  have hstart : (trimChars cs).dropWhile isBlank = trimChars cs := by
    apply List.dropWhile_eq_self_iff.mpr
    intro hpos
    have hfront : trimChars cs <+: cs.dropWhile isBlank := List.rdropWhile_prefix isBlank _
    have hlength := Nat.lt_of_lt_of_le hpos hfront.length_le
    rw [hfront.getElem hpos]
    exact List.dropWhile_get_zero_not isBlank cs hlength
  have hend : dropEndWhile isBlank (trimChars cs) = trimChars cs :=
    List.rdropWhile_idempotent isBlank (cs.dropWhile isBlank)
  calc trimChars (trimChars cs)
      = dropEndWhile isBlank ((trimChars cs).dropWhile isBlank) := rfl
    _ = trimChars cs := by rw [hstart, hend]

theorem Text.trim_trim (s : String) : trim (trim s) = trim s := by
  simp only [trim, String.toList_ofList, trimChars_trimChars]

theorem Functor.ofText?_text (f : Functor) : Functor.ofText? f.text = some f := by
  rw [Functor.ofText?, dif_pos f.valid]

theorem Functor.text_of_ofText? {s : String} {f : Functor} (h : Functor.ofText? s = some f) :
    f.text = s := by
  unfold Functor.ofText? at h
  split at h
  · cases h
    rfl
  · cases h

theorem RuleType.ofText?_text (type : RuleType) : RuleType.ofText? type.text = some type := by
  cases type with
  | stateChange => decide
  | instantaneous => decide
  | continuous => decide

/-!
# Fluents
-/

namespace FluentSpec

/-- The fluent was read from data. -/
def IsRead (s : FluentSpec) : Prop :=
  exists key entry, ofValue key entry = .ok s

theorem readPattern_ne_empty {fluent : Functor} {given : Option Value} {pattern : Option String}
    (h : readPattern fluent given = .ok pattern) : pattern ≠ some "" := by
  unfold readPattern at h
  split at h
  · cases h
    exact nofun
  · cases h
    exact nofun
  · cases h
    split
    · exact nofun
    · rename_i hne
      intro heq
      exact hne (Option.some.inj heq)
  · cases h

theorem IsRead.shape {s : FluentSpec} (h : s.IsRead) :
    Text.trim s.fluent.text = s.fluent.text ∧ s.pattern ≠ some "" := by
  rcases h with ⟨key, entry, hread⟩
  unfold ofValue at hread
  split at hread
  · cases hread
  · rename_i name _
    simp only at hread
    split at hread
    · cases hread
    · rename_i fluent hfluent
      rcases exists_of_map_eq_ok hread with ⟨pattern, hpattern, rfl⟩
      rw [Functor.text_of_ofText? hfluent]
      exact ⟨Text.trim_trim name, readPattern_ne_empty hpattern⟩

theorem ofValue_toValue {s : FluentSpec} (h : s.IsRead) (key : String) :
    ofValue key s.toValue = .ok s := by
  rcases s with ⟨fluent, pattern⟩
  rcases h.shape with ⟨htrim, hpattern⟩
  cases pattern with
  | none =>
      simp [ofValue, toValue, Value.field?, findValue?, Value.text?, htrim, Functor.ofText?_text,
        readPattern, Except.map]
  | some p =>
      have hne : ¬ p = "" := fun heq => hpattern (congrArg some heq)
      simp [ofValue, toValue, Value.field?, findValue?, Value.text?, htrim, Functor.ofText?_text,
        readPattern, Except.map, hne]

theorem one_le_arity_of_compound {s : FluentSpec} {c : Compound} (h : s.compound = .ok c) :
    1 ≤ c.arity := by
  unfold compound at h
  split at h
  · cases h
    show 1 ≤ recordSlots.length
    decide
  · split at h
    · cases h
    · split at h
      · cases h
      · split at h
        · cases h
        · split at h
          · cases h
          · cases h
            rename_i hpos
            exact Nat.one_le_iff_ne_zero.mpr hpos

theorem isRead_of_mem_listOfValue {key : String} {given : Option Value} {specs : List FluentSpec}
    (h : listOfValue key given = .ok specs) {s : FluentSpec} (hs : s ∈ specs) : s.IsRead := by
  unfold listOfValue at h
  split at h
  · cases h
    cases hs
  · cases h
    cases hs
  · rcases exists_of_mem_of_mapM_eq_ok h hs with ⟨entry, _, hread⟩
    exact ⟨key, entry, hread⟩
  · cases h

theorem listOfValue_toValue {specs : List FluentSpec} (h : forall s, s ∈ specs -> s.IsRead)
    (key : String) : listOfValue key (some (.list (specs.map toValue))) = .ok specs :=
  mapM_map_eq_ok fun s hs => ofValue_toValue (h s hs) key

end FluentSpec

/-!
# Records
-/

namespace RuleRecord

/-- The record was read from data. -/
def IsRead (r : RuleRecord) : Prop :=
  exists data verb, ofValue data verb = .ok r

theorem IsRead.specs {r : RuleRecord} (h : r.IsRead) :
    (forall s, s ∈ r.initiates -> s.IsRead) ∧ (forall s, s ∈ r.terminates -> s.IsRead) := by
  rcases h with ⟨data, given, hread⟩
  unfold ofValue at hread
  split at hread
  · simp only at hread
    split at hread
    · split at hread
      · rcases exists_of_bind_eq_ok hread with ⟨_, _, hread⟩
        rcases exists_of_bind_eq_ok hread with ⟨_, _, hread⟩
        rcases exists_of_bind_eq_ok hread with ⟨initiates, hinitiates, hread⟩
        rcases exists_of_bind_eq_ok hread with ⟨terminates, hterminates, hread⟩
        cases hread
        exact ⟨fun _ => FluentSpec.isRead_of_mem_listOfValue hinitiates,
          fun _ => FluentSpec.isRead_of_mem_listOfValue hterminates⟩
      · cases hread
    · cases hread
  · cases hread

/-- The data of a record that was read describe this record. -/
theorem ofValue_toValue {r : RuleRecord} (h : r.IsRead) (given : Value) :
    ofValue r.toValue given = .ok r := by
  rcases h.specs with ⟨hinitiates, hterminates⟩
  have hinitiates' := FluentSpec.listOfValue_toValue hinitiates "initiates"
  have hterminates' := FluentSpec.listOfValue_toValue hterminates "terminates"
  simp [ofValue, toValue, isObject, fieldOr, Value.field?, findValue?, Value.text?,
    Functor.ofText?_text, RuleType.ofText?_text, hinitiates', hterminates', bind, Except.bind,
    pure, Except.pure]

/-!
# Their rules
-/

theorem mem_rules_iff {r : RuleRecord} {rules : List Rule} (h : r.rules = .ok rules)
    (rule : Rule) : rule ∈ rules ↔
      (exists s, s ∈ r.initiates ∧ r.initiatingRule s = .ok rule) ∨
        exists s, s ∈ r.terminatesOnly ∧ r.terminatingRule s = .ok rule := by
  rcases exists_of_bind_eq_ok h with ⟨initiating, hinitiating, h⟩
  rcases exists_of_bind_eq_ok h with ⟨terminating, hterminating, h⟩
  cases h
  rw [List.mem_append, mem_iff_of_mapM_eq_ok hinitiating, mem_iff_of_mapM_eq_ok hterminating]

/-- A rule of a record is a learned one about its event, and makes the fluent of one of its
entries. -/
theorem exists_spec_of_mem_rules {r : RuleRecord} {rules : List Rule} (h : r.rules = .ok rules)
    {rule : Rule} (hrule : rule ∈ rules) :
    rule.event = r.event ∧ rule.source = .learned ∧
      exists s : FluentSpec, s.compound = .ok rule.fluent := by
  rcases (mem_rules_iff h rule).mp hrule with ⟨s, _, hmade⟩ | ⟨s, _, hmade⟩
  · rcases exists_of_bind_eq_ok hmade with ⟨fluent, hfluent, hmade⟩
    simp only at hmade
    split at hmade
    · cases hmade
      exact ⟨rfl, rfl, s, hfluent⟩
    · cases hmade
  · rcases exists_of_bind_eq_ok hmade with ⟨fluent, hfluent, hmade⟩
    cases hmade
    exact ⟨rfl, rfl, s, hfluent⟩

end RuleRecord
end EventCalculus
