import EventCalculus.Proofs.CommandFaults

/-!
# Events that are typed

Behind the last at sign of an assertion its time is expected.  So an event with its time is added as
it was typed, and an event without a time too, unless its own text has an at sign: then this one is
taken for the separator, the event is cut inside a body, and the assertion is refused.
-/

namespace EventCalculus

theorem EventStore.get?_push (s : EventStore) (description : Compound) (timestamp : String) :
    (s.push description timestamp).2.get? (s.size + 1 : Nat) =
      some (s.push description timestamp).1 := by
  have hplace : ((s.size + 1 : Nat) - 1 : Int).toNat = s.events.length := by
    rw [size]
    omega
  rw [get?, if_pos (by omega), hplace]
  exact List.getElem?_concat_length

theorem EventStore.validate_toTerm_of_depth {s : EventStore} {d : Compound}
    (hground : d.isGround = true) (hdepth : (d.toTerm.depth : Int) ≤ s.maxDepth) :
    s.validate d.toTerm = .ok d := by
  have hterm : Compound.ofTerm? d.toTerm = some d := rfl
  simp only [validate, hterm, hground, Bool.not_true, Bool.false_eq_true, ↓reduceIte,
    Int.not_lt.mpr hdepth]

theorem Engine.prepareEvent_render {e : Engine} {d : Compound} (hground : d.isGround = true)
    (hdepth : (d.toTerm.depth : Int) ≤ e.store.maxDepth) (hreads : d.ReadsBack) {m : Moment}
    {timestamp : String} (htime : timestampOf m = .ok timestamp) :
    e.prepareEvent (.text d.render) m = .ok (d, timestamp) := by
  rw [prepareEvent, readTerm, hreads.parse_render, htime]
  show (do
    let c ← (e.store.validate d.toTerm).mapError Fault.event
    return (c, timestamp)) = _
  rw [EventStore.validate_toTerm_of_depth hground hdepth]
  rfl

/-!
# Events that are cut
-/

namespace Term

/-- A text that is not cut into tokens is refused, and not for the limit. -/
theorem exists_fault_of_scan?_eq_none {source : String} (h : Token.scan? source.toList = none) :
    exists reason, parse source = .error reason ∧ reason.isLimit = false := by
  unfold parse
  split
  · exact ⟨_, rfl, rfl⟩
  · split
    · rename_i tokens htokens
      rw [Token.scan?, htokens] at h
      cases h
    · exact ⟨_, rfl, rfl⟩
    · exact ⟨_, rfl, rfl⟩

theorem isBodyChar_atSign : Token.IsBodyChar '@' :=
  ⟨by decide, by decide, by simp [Token.IsQuote], by decide⟩

end Term

/-- What stands in front of an at sign in the text of a compound is refused. -/
theorem Compound.exists_fault_of_atSign {d : Compound} (hreads : d.ReadsBack)
    {before after : List Char} (h : d.render.toList = before ++ '@' :: after) :
    exists reason, Term.parse (String.ofList (Text.trimChars before)) = .error reason ∧
      reason.isLimit = false := by
  have hchars : d.toTerm.renderChars = before ++ '@' :: after := by
    rw [← h]
    exact String.toList_ofList.symm
  have hreading := (Term.parse_render_eq_ok_iff _ _).mp hreads.parse_render
  have hstops := Term.stopsInBody_renderChars Term.isBodyChar_atSign _ hreading hchars
  apply Term.exists_fault_of_scan?_eq_none
  rw [String.toList_ofList]
  rcases d.exists_toList_render with ⟨first, cs, hrender, hfirst⟩
  cases before with
  | nil => exact absurd rfl hstops.ne_nil
  | cons c rest =>
      rw [hrender, List.cons_append, List.cons_append, List.cons.injEq] at h
      rw [h.left] at hfirst
      exact (hstops.trimChars hfirst).scan?_eq_none

/-!
# Lines
-/

/-- The argument of an assertion with a time is cut in front of the time again. -/
theorem splitTime_dated (d : Compound) {time : String} (hplain : '@' ∉ time.toList)
    (htime : Text.trimChars time.toList ≠ []) :
    splitTime (Text.trim (d.render ++ " @ " ++ time)) = (d.render, some (Text.trim time)) := by
  rcases d.exists_toList_render with ⟨first, cs, hrender, hfirst⟩
  have hchars : (d.render ++ " @ " ++ time).toList =
      first :: (cs ++ [')', ' ']) ++ '@' :: ' ' :: time.toList := by
    simp [String.toList_append, hrender]
  have htrim : Text.trim (d.render ++ " @ " ++ time) = String.ofList
      ((d.render.toList ++ [' ']) ++
        '@' :: Text.dropEndWhile Text.isBlank (' ' :: time.toList)) := by
    rw [Text.trim, hchars, Text.trimChars_append_cons hfirst rfl, hrender]
    simp
  have hnone : '@' ∉ Text.dropEndWhile Text.isBlank (' ' :: time.toList) := by
    rcases Text.exists_eq_dropEndWhile_append Text.isBlank (' ' :: time.toList) with ⟨ds, hsplit, _⟩
    intro hmem
    have hmore : '@' ∈ ' ' :: time.toList := by
      rw [hsplit]
      exact List.mem_append_left ds hmem
    rcases List.mem_cons.mp hmore with hblank | hrest
    · cases hblank
    · exact hplain hrest
  have hsource : Text.trimChars (d.render.toList ++ [' ']) = d.render.toList := by
    have hblank : forall c, c ∈ [' '] -> Text.isBlank c = true := by
      intro c hc
      rw [List.mem_singleton.mp hc]
      rfl
    rw [Text.trimChars_append_of_isBlank hblank]
    have hsame := congrArg String.toList d.trim_render
    rw [Text.trim, String.toList_ofList] at hsame
    exact hsame
  have hafter : Text.trimChars (Text.dropEndWhile Text.isBlank (' ' :: time.toList)) =
      Text.trimChars time.toList := by
    rw [Text.trimChars_dropEndWhile, Text.trimChars_cons_of_isBlank rfl]
  rw [htrim, splitTime_append hnone, hsource, hafter, String.ofList_toList,
    if_neg (by simpa using htime)]
  rfl

theorem Command.ofLine_dated (d : Compound) (time : String) :
    ofLine ("/assert " ++ d.render ++ " @ " ++ time) =
      .assert (Text.trim (d.render ++ " @ " ++ time)) := by
  rcases d.exists_toList_render with ⟨first, cs, hrender, hfirst⟩
  have hchars : (d.render ++ " @ " ++ time).toList =
      first :: (cs ++ [')'] ++ " @ ".toList ++ time.toList) := by
    simp [String.toList_append, hrender]
  have hline : "/assert " ++ d.render ++ " @ " ++ time =
      "/assert " ++ (d.render ++ " @ " ++ time) := by
    simp only [String.append_assoc]
  rw [hline]
  exact ofLine_assert hchars hfirst

namespace Console

/-- The line adds an event, and only this one, and shows it. -/
structure Adds (c : Console) (line : String) (description : Compound) (timestamp : String) :
    Prop where
  answer : (c.handle line).answer = .ok true
  output : (c.handle line).output =
    showLine ("✓ " ++ Event.occurrenceText description timestamp)
  events : (c.handle line).console.engine.store.events =
    c.engine.store.events ++ [⟨c.engine.store.size + 1, description, timestamp⟩]

/-- The line is refused as no term, and leaves no trace but in the log. -/
structure Refuses (c : Console) (line : String) : Prop where
  answer : (c.handle line).answer = .ok true
  output : exists reason, (c.handle line).output = shownFault (.parse reason)
  unchanged : (c.handle line).console.unlogged = c.unlogged

variable {c : Console}

theorem assertCommand_of_prepared (he : c.engine.Orderly) {argument source : String}
    {time : Option String} (hsplit : splitTime argument = (source, time)) {d : Compound}
    {timestamp : String} (hprepare : c.engine.prepareEvent (.text source)
      (.text (time.getD c.engine.currentDate)) = .ok (d, timestamp)) :
    c.assertCommand argument = (.ok (showLine ("✓ " ++ Event.occurrenceText d timestamp)),
      { c with engine := (c.engine.storeEvent d timestamp).2 }) := by
  have hstored : storedText { c with engine := (c.engine.storeEvent d timestamp).2 }
      (c.engine.store.size + 1) = "✓ " ++ Event.occurrenceText d timestamp := by
    have hget := c.engine.store.get?_push d timestamp
    rw [← c.engine.store_storeEvent d timestamp] at hget
    rw [storedText, hget]
    rfl
  rw [assertCommand, hsplit]
  simp only [Engine.assertEvent_of_ok _ hprepare, he.fst_storeEvent, Except.map, hstored]

theorem adds_of_prepared (he : c.engine.Orderly) {line argument source : String}
    (hline : Command.ofLine line = .assert argument) {time : Option String}
    (hsplit : splitTime argument = (source, time)) {d : Compound} {timestamp : String}
    (hprepare : c.engine.prepareEvent (.text source) (.text (time.getD c.engine.currentDate)) =
      .ok (d, timestamp)) : c.Adds line d timestamp := by
  have hperform : c.perform (Command.ofLine line) =
      (.ok (showLine ("✓ " ++ Event.occurrenceText d timestamp)),
        { c with engine := (c.engine.storeEvent d timestamp).2 }) := by
    rw [hline]
    exact assertCommand_of_prepared he hsplit hprepare
  have hhandle := handle_of_ok (by rw [hline]; exact Command.noConfusion) hperform
  constructor
  case answer => rw [hhandle]
  case output => rw [hhandle]
  case events =>
    rw [hhandle]
    show (c.engine.storeEvent d timestamp).2.store.events = _
    rw [Engine.store_storeEvent]
    rfl

theorem refuses_of_parse_eq_error {line argument source : String}
    (hline : Command.ofLine line = .assert argument) {time : Option String}
    (hsplit : splitTime argument = (source, time)) {reason : ParseFault}
    (hparse : Term.parse source = .error reason) (hlimit : reason.isLimit = false) :
    c.Refuses line := by
  rcases c.perform_of_parse_eq_error hline hsplit hparse with ⟨after, hperform, hsame⟩
  have hhandles := handles_of_rejection hperform (Fault.isRejection_parse hlimit) hsame
  rcases hhandles.shown (.parse reason) (congrArg Prod.fst hperform) with ⟨houtput, hunchanged⟩
  constructor
  case answer => simp [hhandles.answer, hline]
  case output => exact ⟨reason, houtput⟩
  case unchanged => exact hunchanged

/-- An event that can be stored and reads back is added as it was typed, at the time behind it or,
without one, at the current date.  Only an event whose own text has an at sign needs a time. -/
theorem adds_typed_event (hc : c.Reachable) {d : Compound} (hground : d.isGround = true)
    (hdepth : (d.toTerm.depth : Int) ≤ c.engine.store.maxDepth) (hreads : d.ReadsBack) :
    (forall time timestamp, '@' ∉ time.toList -> timestampOf (.text time) = .ok timestamp ->
        c.Adds ("/assert " ++ d.render ++ " @ " ++ time) d timestamp) ∧
      ('@' ∉ d.render.toList -> c.Adds ("/assert " ++ d.render) d c.engine.currentDate) ∧
      ('@' ∈ d.render.toList -> c.Refuses ("/assert " ++ d.render)) := by
  have he := hc.orderly
  have hline := Command.ofLine_assert_render d
  refine ⟨?_, ?_, ?_⟩
  · intro time timestamp hplain htime
    have hsplit := splitTime_dated d hplain (trimChars_ne_nil_of_timestampOf htime)
    exact adds_of_prepared he (Command.ofLine_dated d time) hsplit
      (Engine.prepareEvent_render hground hdepth hreads (timestampOf_trim htime))
  · intro hplain
    have hsplit : splitTime d.render = (d.render, none) := by
      rw [splitTime_of_not_mem hplain, d.trim_render]
    exact adds_of_prepared he hline hsplit
      (Engine.prepareEvent_render hground hdepth hreads he.isTimestamp)
  · intro hsign
    rcases Text.exists_eq_append_last hsign with ⟨before, after, hchars, hlast⟩
    rcases Compound.exists_fault_of_atSign hreads hchars with ⟨reason, hparse, hlimit⟩
    have hwhole : String.ofList (before ++ '@' :: after) = d.render := by
      rw [← hchars, String.ofList_toList]
    exact refuses_of_parse_eq_error hline (hwhole ▸ splitTime_append hlast) hparse hlimit

end Console

namespace Residence

/-- Carol gives an address for letters. -/
def gaveAddress : Compound :=
  ⟨Archive.said, [.atom ⟨"carol", by decide⟩, .text "a@b"]⟩

theorem readsBack_gaveAddress : gaveAddress.ReadsBack :=
  Compound.readsBack_of_reading? (by decide +kernel)

end Residence

namespace Console

open Residence

theorem adds_typed_event_address :
    console.Reachable ∧ gaveAddress.isGround = true ∧
      (gaveAddress.toTerm.depth : Int) ≤ console.engine.store.maxDepth ∧ gaveAddress.ReadsBack ∧
      console.Adds ("/assert " ++ gaveAddress.render ++ " @ " ++ " 2024-03-01") gaveAddress
        "2024-03-01" ∧
      console.Refuses ("/assert " ++ gaveAddress.render) := by
  have hground : gaveAddress.isGround = true := by decide +kernel
  have hdepth : (gaveAddress.toTerm.depth : Int) ≤ console.engine.store.maxDepth := by
    decide +kernel
  have htime : timestampOf (.text " 2024-03-01") = .ok "2024-03-01" := by
    apply toOption_eq_some_iff.mp
    decide +kernel
  rcases adds_typed_event reachable_console hground hdepth readsBack_gaveAddress with
    ⟨hdated, _, hrefused⟩
  exact ⟨reachable_console, hground, hdepth, readsBack_gaveAddress,
    hdated " 2024-03-01" "2024-03-01" (by decide) htime, hrefused (by decide +kernel)⟩

/-- The event can be stored and reads back, but typed without a time it is not added. -/
theorem typed_address_not_added :
    console.Reachable ∧ gaveAddress.isGround = true ∧
      (gaveAddress.toTerm.depth : Int) ≤ console.engine.store.maxDepth ∧ gaveAddress.ReadsBack ∧
      gaveAddress.render = "said(carol, \"a@b\")" ∧
      (console.handle "/assert said(carol, \"a@b\")").console.engine.store.events = [] := by
  refine ⟨reachable_console, ?_, ?_, readsBack_gaveAddress, ?_, ?_⟩
  · decide +kernel
  · decide +kernel
  · decide +kernel
  · decide +kernel

end Console
end EventCalculus
