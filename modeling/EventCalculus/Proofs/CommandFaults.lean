import EventCalculus.Proofs.CommandLines
import EventCalculus.Proofs.ConsoleStates
import EventCalculus.Proofs.LongNumerals

/-!
# Faults of commands

A fault that rejects what was given is shown, and the session goes on.  What else can go wrong with
a command is a numeral beyond the limit on digits, in a term, in a record, or in the pattern of a
record: it ends the session with the fault.  Either way nothing has changed but the log.
-/

namespace EventCalculus

/-- The fault is shown, or it is about a numeral that only a text longer than the limit can have. -/
def Fault.ShownWithin (length : Nat) (f : Fault) : Prop :=
  f.isRejection = true ∨ (f.kind = .limit ∧ Numeral.digitLimit < length)

namespace Fault

theorem ShownWithin.mono {f : Fault} {n m : Nat} (h : f.ShownWithin n) (hle : n ≤ m) :
    f.ShownWithin m :=
  h.imp id fun hlimit => ⟨hlimit.left, Nat.lt_of_lt_of_le hlimit.right hle⟩

theorem isRejection_parse {reason : ParseFault} (hlimit : reason.isLimit = false) :
    (parse reason).isRejection = true := by
  simp only [isRejection, kind, hlimit, Bool.false_eq_true, ↓reduceIte]

theorem shownWithin_parse {source : String} {reason : ParseFault}
    (h : Term.parse source = .error reason) :
    (Fault.parse reason).ShownWithin source.toList.length := by
  cases hlimit : reason.isLimit with
  | false => exact Or.inl (isRejection_parse hlimit)
  | true => exact Or.inr ⟨if_pos hlimit, Term.lt_length_of_isLimit h hlimit⟩

theorem shownWithin_unreadable {source : String} {reason : ParseFault}
    (h : Term.parse source = .error reason) :
    (Fault.query (.unreadable reason.source reason)).ShownWithin source.toList.length := by
  cases hlimit : reason.isLimit with
  | false =>
      left
      simp only [isRejection, kind, hlimit, Bool.false_eq_true, ↓reduceIte]
  | true => exact Or.inr ⟨if_pos hlimit, Term.lt_length_of_isLimit h hlimit⟩

theorem shownWithin_record {length : Nat} {reason : RecordFault}
    (h : reason.isLimit = true -> Numeral.digitLimit < length) :
    (Fault.record reason).ShownWithin length := by
  cases hlimit : reason.isLimit with
  | false =>
      left
      simp only [isRejection, kind, hlimit, Bool.false_eq_true, ↓reduceIte]
  | true => exact Or.inr ⟨if_pos hlimit, h hlimit⟩

end Fault

/-!
# Engines
-/

theorem isRejection_of_timestampOf_eq_error {m : Moment} {fault : Fault}
    (h : timestampOf m = .error fault) : fault.isRejection = true := by
  rcases exists_of_mapError_eq_error h with ⟨reason, _, rfl⟩
  rfl

theorem readTerm_text_eq_error {source : String} {reason : ParseFault}
    (h : readTerm (.text source) = .error reason) : Term.parse source = .error reason :=
  eq_error_of_map_eq_error h

namespace Engine
variable {e : Engine} {fault : Fault}

/-- A text is not prepared because it is not a term, or because its time or its term is refused. -/
theorem shownWithin_of_prepareEvent_eq_error {source : String} {m : Moment}
    (h : e.prepareEvent (.text source) m = .error fault) :
    fault.ShownWithin source.toList.length := by
  rcases exists_of_bind_eq_error h with h | ⟨v, hv, h⟩
  · rcases exists_of_mapError_eq_error h with ⟨reason, hreason, rfl⟩
    exact Fault.shownWithin_parse (readTerm_text_eq_error hreason)
  rcases exists_of_bind_eq_error h with h | ⟨timestamp, _, h⟩
  · exact Or.inl (isRejection_of_timestampOf_eq_error h)
  rcases exists_of_map_eq_ok (exists_of_mapError_eq_ok hv) with ⟨t, _, rfl⟩
  rcases exists_of_bind_eq_error h with h | ⟨given, _, h⟩
  · cases h
  rcases exists_of_bind_eq_error h with h | ⟨c, _, h⟩
  · rcases exists_of_mapError_eq_error h with ⟨reason, _, rfl⟩
    exact Or.inl rfl
  · cases h

theorem shownWithin_of_readPattern_eq_error {source : String}
    (h : readPattern (.text source) = .error fault) :
    fault.ShownWithin source.toList.length := by
  rcases exists_of_mapError_eq_error h with ⟨reason, hreason, rfl⟩
  exact Fault.shownWithin_unreadable (readTerm_text_eq_error hreason)

theorem isRejection_of_checkPattern_eq_error {v : Value}
    (h : (checkPattern v).mapError Fault.query = .error fault) : fault.isRejection = true := by
  rcases exists_of_mapError_eq_error h with ⟨reason, hreason, rfl⟩
  unfold checkPattern at hreason
  split at hreason
  · cases hreason
    rfl
  · split at hreason
    · cases hreason
      rfl
    · cases hreason

theorem shownWithin_of_pattern_eq_error {source : String}
    (h : (e.pattern (.text source)).1 = .error fault) :
    fault.ShownWithin source.toList.length := by
  unfold pattern at h
  split at h
  · rename_i reason hread
    cases h
    exact shownWithin_of_readPattern_eq_error hread
  · exact Or.inl (isRejection_of_checkPattern_eq_error h)

theorem isRejection_of_timeOf_eq_error {m : Option Moment} (h : e.timeOf m = .error fault) :
    fault.isRejection = true := by
  cases m with
  | none => cases h
  | some m => exact isRejection_of_timestampOf_eq_error h

theorem shownWithin_of_query_eq_error {source : String} {m : Option Moment}
    (h : (e.query (.text source) m).1 = .error fault) :
    fault.ShownWithin source.toList.length := by
  rw [fst_query] at h
  have hpattern := eq_error_of_map_eq_error h
  unfold patternAt at hpattern
  split at hpattern
  · rename_i reason hread
    cases hpattern
    exact shownWithin_of_readPattern_eq_error hread
  · rcases exists_of_bind_eq_error hpattern with htime | ⟨time, _, hmore⟩
    · exact Or.inl (isRejection_of_timeOf_eq_error htime)
    rcases exists_of_bind_eq_error hmore with hcheck | ⟨c, _, hdone⟩
    · exact Or.inl (isRejection_of_checkPattern_eq_error hcheck)
    · cases hdone

/-- All that holds can be listed at every time, since every fluent has a subject. -/
theorem Orderly.isRejection_of_allHolding_eq_error (he : e.Orderly) {m : Option Moment}
    (h : e.allHolding m = .error fault) : fault.isRejection = true := by
  rcases exists_of_bind_eq_error h with htime | ⟨time, _, hmore⟩
  · exact isRejection_of_timeOf_eq_error htime
  · rw [Scenario.allHolding?_eq_some he.indexed he.hasSubjects] at hmore
    cases hmore

/-- Only a pattern can bring a numeral beyond the limit into a record. -/
theorem shownWithin_of_rulesOfInput_eq_error {length : Nat} {data : Value}
    (hdata : data.TextsWithin length) (h : rulesOfInput (.data data) = .error fault) :
    fault.ShownWithin length := by
  rw [rulesOfInput] at h
  split at h
  · rename_i r hread
    unfold rulesOfRecord at h
    split at h
    · cases h
    · rename_i reason hrules
      cases h
      have hpatterns := RuleRecord.patternsWithin_ofValue hdata hread
      exact Fault.shownWithin_record (RuleRecord.lt_length_of_rules hpatterns hrules)
  · rename_i reason hread
    cases h
    apply Fault.shownWithin_record
    intro hlimit
    rw [RuleRecord.isLimit_of_ofValue_eq_error hread] at hlimit
    cases hlimit

end Engine

/-!
# Consoles
-/

namespace Console

/-- The console without the log of its engine. -/
def unlogged (c : Console) : Console :=
  { c with engine := c.engine.unlogged }

variable {c after : Console} {fault : Fault}

theorem unlogged_withEngine {engine : Engine} (h : engine.unlogged = c.engine.unlogged) :
    unlogged { c with engine := engine } = c.unlogged := by
  rw [unlogged, unlogged, h]

theorem assertCommand_eq_error (he : c.engine.Orderly) {argument : String}
    (h : c.assertCommand argument = (.error fault, after)) :
    fault.ShownWithin argument.toList.length ∧ after.unlogged = c.unlogged := by
  rcases Prod.mk.inj h with ⟨hfault, rfl⟩
  rcases he.assertEvent_eq_error (eq_error_of_map_eq_error hfault) with ⟨hprepare, hsame⟩
  refine ⟨?_, unlogged_withEngine hsame⟩
  exact (Engine.shownWithin_of_prepareEvent_eq_error hprepare).mono (length_splitTime_le argument)

theorem ask_eq_error {argument : String} {present : List Bindings -> String}
    (h : c.ask argument present = (.error fault, after)) :
    fault.ShownWithin argument.toList.length ∧ after.unlogged = c.unlogged := by
  rcases Prod.mk.inj h with ⟨hfault, rfl⟩
  refine ⟨?_, unlogged_withEngine (c.engine.unlogged_query _ _)⟩
  have hquery := Engine.shownWithin_of_query_eq_error (eq_error_of_map_eq_error hfault)
  exact hquery.mono (length_splitTime_le argument)

theorem nowCommand_eq_error {argument : String}
    (h : c.nowCommand argument = (.error fault, after)) :
    fault.isRejection = true ∧ after.unlogged = c.unlogged := by
  unfold nowCommand at h
  by_cases hempty : argument = ""
  · rw [if_pos hempty] at h
    cases (Prod.mk.inj h).left
  · rw [if_neg hempty] at h
    cases htime : timestampOf (.text argument) with
    | error reason =>
        rw [Engine.setCurrentDate, htime] at h
        cases h
        exact ⟨isRejection_of_timestampOf_eq_error htime, rfl⟩
    | ok date =>
        rw [Engine.setCurrentDate, htime] at h
        cases (Prod.mk.inj h).left

theorem learnData_eq_error {length : Nat} {verb : String} {fields : List (String × Value)}
    (hverb : verb.toList.length ≤ length) (hfields : (Value.object fields).TextsWithin length)
    (h : c.learnData verb fields = (.error fault, after)) :
    fault.ShownWithin length ∧ after.unlogged = c.unlogged := by
  have hdata : (Value.object (insertEntry "verb" (.text verb) fields)).TextsWithin length := by
    apply Json.textsWithin_object
    intro key v hv
    rcases mem_of_mem_insertEntry hv with hnew | hold
    · cases hnew
      exact Json.textsWithin_text hverb
    · exact fun s hs => hfields s (.field hold hs)
  rcases Prod.mk.inj h with ⟨hfault, rfl⟩
  rcases Engine.learn_eq_error (eq_error_of_map_eq_error hfault) with ⟨hrules, hsame⟩
  exact ⟨Engine.shownWithin_of_rulesOfInput_eq_error hdata hrules, unlogged_withEngine hsame⟩

theorem learnCommand_eq_error {argument : String}
    (h : c.learnCommand argument = (.error fault, after)) :
    fault.ShownWithin argument.toList.length ∧ after.unlogged = c.unlogged := by
  rcases Text.cutFirst_sublist ' ' argument.toList with ⟨hverb, hpayload⟩
  unfold learnCommand at h
  generalize Text.cutFirst ' ' argument.toList = parts at h hverb hpayload
  rcases parts with ⟨verb, payload⟩
  have hlength : (String.ofList payload).toList.length ≤ argument.toList.length := by
    rw [String.toList_ofList]
    exact hpayload.length_le
  simp only at h
  split at h
  · cases (Prod.mk.inj h).left
  · split at h
    · rename_i count hparse
      cases h
      exact ⟨Or.inr ⟨rfl, Nat.lt_of_lt_of_le (Json.lt_length_of_parse hparse) hlength⟩, rfl⟩
    · cases (Prod.mk.inj h).left
    · rename_i fields hparse
      refine learnData_eq_error ?_ ?_ h
      · rw [String.toList_ofList]
        exact hverb.length_le
      · exact fun s hs => Nat.le_trans (Json.textsWithin_of_parse hparse s hs) hlength
    · cases (Prod.mk.inj h).left

/-- A command that fails changes nothing but the log, and its fault is shown unless a numeral in its
argument is beyond the limit. -/
theorem perform_eq_error (he : c.engine.Orderly) {command : Command}
    (h : c.perform command = (.error fault, after)) :
    fault.ShownWithin command.argument.toList.length ∧ after.unlogged = c.unlogged := by
  cases command with
  | assert argument => exact assertCommand_eq_error he h
  | query argument => exact ask_eq_error h
  | holds argument => exact ask_eq_error h
  | state argument =>
      rcases Prod.mk.inj h with ⟨hfault, rfl⟩
      have hrejection := he.isRejection_of_allHolding_eq_error (eq_error_of_map_eq_error hfault)
      exact ⟨Or.inl hrejection, rfl⟩
  | ever argument =>
      rcases Prod.mk.inj h with ⟨hfault, rfl⟩
      have hpattern := eq_error_of_map_eq_error (eq_error_of_map_eq_error hfault)
      exact ⟨Engine.shownWithin_of_pattern_eq_error hpattern,
        unlogged_withEngine (c.engine.unlogged_pattern _)⟩
  | timeline argument =>
      rcases Prod.mk.inj h with ⟨hfault, rfl⟩
      have hpattern := eq_error_of_map_eq_error (eq_error_of_map_eq_error hfault)
      exact ⟨Engine.shownWithin_of_pattern_eq_error hpattern,
        unlogged_withEngine (c.engine.unlogged_pattern _)⟩
  | now argument =>
      rcases nowCommand_eq_error h with ⟨hrejection, hsame⟩
      exact ⟨Or.inl hrejection, hsame⟩
  | learn argument => exact learnCommand_eq_error h
  | events | save | reset | help | unknown _ | leave => cases (Prod.mk.inj h).left

/-- A line is handled: the console goes on unless it is left, and a fault is shown. -/
structure Handles (c : Console) (line : String) : Prop where
  answer : (c.handle line).answer = .ok (decide (Command.ofLine line ≠ .leave))
  shown : forall fault, (c.perform (Command.ofLine line)).1 = .error fault ->
    (c.handle line).output = shownFault fault ∧ (c.handle line).console.unlogged = c.unlogged

/-- A numeral beyond the limit ends the session. -/
structure Stops (c : Console) (line : String) (fault : Fault) : Prop where
  answer : (c.handle line).answer = .error fault
  limit : fault.kind = .limit
  unchanged : (c.handle line).console.unlogged = c.unlogged

section
variable {line : String}

theorem handles_of_ok {text : String}
    (h : c.perform (Command.ofLine line) = (.ok text, after)) : c.Handles line := by
  constructor
  case answer =>
    by_cases hleave : Command.ofLine line = .leave
    · simp [handle_of_leave hleave, hleave]
    · simp [handle_of_ok hleave h, hleave]
  case shown =>
    intro fault hfault
    rw [h] at hfault
    cases hfault

theorem handles_of_rejection (h : c.perform (Command.ofLine line) = (.error fault, after))
    (hrejection : fault.isRejection = true) (hsame : after.unlogged = c.unlogged) :
    c.Handles line := by
  have hstays : Command.ofLine line ≠ .leave := by
    intro hleave
    rw [hleave] at h
    cases (Prod.mk.inj h).left
  have hhandle := handle_of_error h
  rw [if_pos hrejection] at hhandle
  constructor
  case answer => simp [hhandle, hstays]
  case shown =>
    intro other hother
    rw [h] at hother
    cases hother
    rw [hhandle]
    exact ⟨rfl, hsame⟩

theorem stops_of_limit (h : c.perform (Command.ofLine line) = (.error fault, after))
    (hlimit : fault.kind = .limit) (hsame : after.unlogged = c.unlogged) :
    c.Stops line fault := by
  have hhandle := handle_of_error h
  rw [Fault.isRejection, hlimit, if_neg Bool.false_ne_true] at hhandle
  constructor
  case answer => rw [hhandle]
  case limit => exact hlimit
  case unchanged =>
    rw [hhandle]
    exact hsame

end

/-- An assertion whose event is not a term fails as reading it does. -/
theorem perform_of_parse_eq_error (c : Console) {line argument source : String}
    (hline : Command.ofLine line = .assert argument) {time : Option String}
    (hsplit : splitTime argument = (source, time)) {reason : ParseFault}
    (h : Term.parse source = .error reason) :
    exists after, c.perform (Command.ofLine line) = (.error (.parse reason), after) ∧
      after.unlogged = c.unlogged := by
  have hprepare : c.engine.prepareEvent (.text source) (.text (time.getD c.engine.currentDate)) =
      .error (.parse reason) := by
    rw [Engine.prepareEvent, readTerm, h]
    rfl
  refine ⟨{ c with engine := c.engine.noteFault "assert_event" (.parse reason) }, ?_,
    unlogged_withEngine (c.engine.unlogged_noteFault _ _)⟩
  rw [hline, perform, assertCommand, hsplit]
  simp only [Engine.assertEvent, hprepare]
  rfl

end Console

namespace Term

theorem parse_render_of_long {f : Functor} {n : Int}
    (hlong : Numeral.digitLimit < (Nat.toDigits 10 n.natAbs).length) :
    exists reason, parse (Term.compound f [.number (.int n)]).render = .error reason ∧
      reason.isLimit = true := by
  have htokens : (Term.compound f [.number (.int n)]).tokens? = some [.name f.stem, .openParen,
      .numeral ⟨decide (n < 0), Nat.toDigits 10 n.natAbs, []⟩, .closeParen] := rfl
  have hvalue : (Numeral.mk (decide (n < 0)) (Nat.toDigits 10 n.natAbs) []).value =
      .error (Nat.toDigits 10 n.natAbs).length := by
    simp only [Numeral.value, List.isEmpty_nil, ↓reduceIte, hlong]
  have hread : readTerm [] [.name f.stem, .openParen,
      .numeral ⟨decide (n < 0), Nat.toDigits 10 n.natAbs, []⟩, .closeParen] =
      .error (.tooManyDigits (Nat.toDigits 10 n.natAbs).length) := by
    rw [readTerm.eq_def]
    simp only
    rw [readTerm.eq_def]
    simp only [hvalue]
  have hall := toOption_eq_some_iff.mp ((scan?_render _).trans htokens)
  rw [parse, isBlankText_render, if_neg Bool.false_ne_true, hall]
  simp only [hread]
  exact ⟨_, rfl, rfl⟩

end Term

namespace Console

/-- Whatever the state of a console, asserting an integer beyond the limit ends the session. -/
theorem stops_of_long_integer (c : Console) {f : Functor} (hf : f.stem = f) {n : Int}
    (hlong : Numeral.digitLimit < (Nat.toDigits 10 n.natAbs).length) :
    exists fault, c.Stops ("/assert " ++ Compound.render ⟨f, [.number (.int n)]⟩) fault := by
  rcases Term.parse_render_of_long (f := f) hlong with ⟨reason, hparse, hlimit⟩
  have hsign : '@' ∉ (Compound.render ⟨f, [.number (.int n)]⟩).toList := by
    have hchars : (Compound.render ⟨f, [.number (.int n)]⟩).toList =
        f.text.toList ++ '(' :: Number.chars (.int n) ++ [')'] := String.toList_ofList
    rw [hchars]
    simp only [List.mem_append, List.mem_cons, List.not_mem_nil, or_false, not_or]
    refine ⟨⟨fun hword => ?_, by decide, fun hnumber => ?_⟩, by decide⟩
    · exact absurd (Functor.isWordChar_of_stem_eq hf hword) (by decide)
    · exact absurd (Number.isNumberChar_of_mem_chars rfl hnumber) (by decide)
  have hcommand := Command.ofLine_assert_render ⟨f, [.number (.int n)]⟩
  have hsplit : splitTime (Compound.render ⟨f, [.number (.int n)]⟩) =
      (Compound.render ⟨f, [.number (.int n)]⟩, none) := by
    rw [splitTime_of_not_mem hsign, Compound.trim_render]
  rcases c.perform_of_parse_eq_error hcommand hsplit hparse with ⟨after, hperform, hsame⟩
  exact ⟨.parse reason, stops_of_limit hperform (if_pos hlimit) hsame⟩

end Console

namespace Residence

/-- A new console with nothing in its archive. -/
def console : Console :=
  ⟨engine, Archive.empty, "chronicle.db", none⟩

theorem reachable_console : console.Reachable := by
  have hdate : (Moment.date firstDay).IsReal := show firstDay.isValid = true by decide +kernel
  have hcreate : Engine.create (.date firstDay) EventStore.defaultMaxDepth Taxonomy.standard none =
      .ok engine := rfl
  exact .fresh hdate Taxonomy.isSound_of_mem_standard hcreate Archive.empty "chronicle.db" none

def counted : Functor :=
  ⟨"f", by decide +kernel⟩

/-- The assertion of a power of ten. -/
def powerLine (k : Nat) : String :=
  String.ofList ("/assert f(1".toList ++ List.replicate k '0' ++ [')'])

theorem toDigits_pow (k : Nat) : Nat.toDigits 10 (10 ^ k) = '1' :: List.replicate k '0' := by
  induction k with
  | zero => rfl
  | succ k ih =>
      have hstep := Nat.toDigits_append_toDigits (b := 10) (n := 10 ^ k) (d := 0) (by decide)
        (Nat.pow_pos (by decide)) (by decide)
      rw [Nat.pow_succ, Nat.mul_comm, ← Nat.add_zero (10 * 10 ^ k), ← hstep, ih,
        List.replicate_succ']
      rfl

theorem powerLine_eq (k : Nat) :
    powerLine k = "/assert " ++ Compound.render ⟨counted, [.number (.int (10 ^ k : Nat))]⟩ := by
  have hdigits : Number.intChars (10 ^ k : Nat) = '1' :: List.replicate k '0' := by
    rw [Number.intChars, if_neg (Int.not_lt.mpr (Int.natCast_nonneg _)), Int.natAbs_natCast,
      toDigits_pow]
  have hchars : (Compound.render ⟨counted, [.number (.int (10 ^ k : Nat))]⟩).toList =
      counted.text.toList ++ '(' :: Number.intChars (10 ^ k : Nat) ++ [')'] := String.toList_ofList
  have hline : (powerLine k).toList = "/assert f(1".toList ++ List.replicate k '0' ++ [')'] :=
    String.toList_ofList
  have hfront : "/assert f(1".toList =
      "/assert ".toList ++ (counted.text.toList ++ ['(', '1']) := by
    decide +kernel
  apply String.toList_inj.mp
  simp only [hline, hfront, String.toList_append, hchars, hdigits, List.append_assoc,
    List.cons_append, List.nil_append]

end Residence

namespace Console

open Residence

end Console
end EventCalculus
