import EventCalculus.Proofs.StoreSessions

/-!
# Iteration over the events of a verb

A cursor stops where its view ended when it was first moved, and the view can only grow behind this
place.  So whatever happens in between, the cursor gives what the view showed then.
-/

namespace EventCalculus

/-!
# Readings
-/

/-- What moving a cursor gives: an event, the end, or a read behind the last event. -/
inductive CursorReading where
  | event (e : Event)
  | finished
  | outOfRange
deriving DecidableEq

namespace CursorReading

/-- The reading at a position of a list that is gone through up to a stop. -/
def ofPosition (events : List Event) (position stop : Nat) : CursorReading :=
  if position < stop then
    match events[position]? with
    | some e => .event e
    | none => .outOfRange
  else
    .finished

/-- The event of a reading. -/
def event? : CursorReading -> Option Event
  | .event e => some e
  | .finished | .outOfRange => none

/-- A number of readings that give the events one by one and then the end again and again. -/
def listing (events : List Event) (count : Nat) : List CursorReading :=
  (events.take count).map .event ++ List.replicate (count - events.length) .finished

/-- The first event of those that are left, or the end. -/
def next : List Event -> CursorReading
  | [] => .finished
  | e :: _ => .event e

theorem listing_zero (left : List Event) : listing left 0 = [] := by
  simp [listing]

theorem listing_succ (left : List Event) (count : Nat) :
    listing left (count + 1) = next left :: listing left.tail count := by
  cases left with
  | nil => simp [listing, next, List.replicate_succ]
  | cons e rest => simp [listing, next, Nat.add_sub_add_right]

end CursorReading

namespace ObservedStore

/-- What moving a cursor gives, where a read behind the last event is told from the end. -/
def read (s : ObservedStore) (c : EventCursor) : CursorReading :=
  .ofPosition (s.contents c.view) c.position (c.stop.getD (s.contents c.view).length)

theorem fst_advance (s : ObservedStore) (c : EventCursor) :
    (s.advance c).1 = (s.read c).event? := by
  unfold advance read CursorReading.ofPosition
  simp only
  split
  · cases (s.contents c.view)[c.position]? with
    | none => rfl
    | some e => rfl
  · rfl

end ObservedStore

namespace StoreSession

variable {s : StoreSession}

/-- What an action gives if it moves the cursor. -/
def reading? (s : StoreSession) (cursor : Nat) (action : SessionAction) : Option CursorReading :=
  if action.moves cursor then s.cursors[cursor]?.map s.observed.read else none

/-- What a run gives each time that it moves the cursor. -/
def readings (cursor : Nat) : StoreSession -> List SessionAction -> List CursorReading
  | _, [] => []
  | s, action :: rest => (s.reading? cursor action).toList ++ readings cursor (s.step action) rest

/-!
# Cursors that have been moved
-/

/-- The cursor has these events before it: it stops behind them, and its view shows them after those
that the cursor has passed. -/
def HasLeft (s : ObservedStore) (c : EventCursor) (left : List Event) : Prop :=
  exists passed more, s.contents c.view = passed ++ left ++ more ∧ c.position = passed.length ∧
    c.stop.getD (s.contents c.view).length = passed.length + left.length

theorem hasLeft_of_not_moved (s : ObservedStore) {c : EventCursor} (hposition : c.position = 0)
    (hstop : c.stop = none) : HasLeft s c (s.contents c.view) := by
  refine ⟨[], [], by simp, hposition, ?_⟩
  rw [hstop]
  simp

/-- The events left are read one by one, and behind them the cursor stays at its end. -/
theorem HasLeft.advance {s : ObservedStore} {c : EventCursor} {left : List Event}
    (h : HasLeft s c left) : s.read c = .next left ∧ HasLeft s (s.advance c).2 left.tail := by
  rcases h with ⟨passed, more, hcontents, hposition, hstop⟩
  cases left with
  | nil =>
      have hend : ¬ c.position < c.stop.getD (s.contents c.view).length := by
        rw [hstop, hposition]
        exact Nat.lt_irrefl _
      rw [ObservedStore.read, CursorReading.ofPosition, if_neg hend, ObservedStore.advance,
        if_neg hend]
      exact ⟨rfl, passed, more, hcontents, hposition, hstop⟩
  | cons e rest =>
      have hbefore : c.position < c.stop.getD (s.contents c.view).length := by
        rw [hstop, hposition]
        exact Nat.lt_add_of_pos_right (Nat.succ_pos _)
      have hread : (s.contents c.view)[c.position]? = some e := by
        rw [hcontents, hposition, List.append_assoc, List.getElem?_append_right (Nat.le_refl _),
          Nat.sub_self]
        rfl
      rw [ObservedStore.read, CursorReading.ofPosition, if_pos hbefore, hread,
        ObservedStore.advance, if_pos hbefore]
      refine ⟨rfl, passed ++ [e], more, ?_, ?_, ?_⟩
      · simpa using hcontents
      · simp [hposition]
      · simp only [Option.getD_some, hstop, List.length_append, List.length_cons, List.length_nil,
          List.tail_cons]
        omega

theorem HasLeft.step {c : EventCursor} {left : List Event} (h : HasLeft s.observed c left)
    (hc : s.observed.HasTaken c.view) (hstop : c.stop ≠ none) (action : SessionAction) :
    HasLeft (s.step action).observed c left := by
  rcases h with ⟨passed, more, hcontents, hposition, hleft⟩
  rcases contents_prefix_step hc action with ⟨added, hadded⟩
  rcases Option.ne_none_iff_exists'.mp hstop with ⟨stop, hsome⟩
  rw [hsome, Option.getD_some] at hleft
  refine ⟨passed, more ++ added, ?_, hposition, ?_⟩
  · rw [← hadded, hcontents, List.append_assoc]
  · rw [hsome, Option.getD_some, hleft]

theorem stop_advance (s : ObservedStore) (c : EventCursor) : (s.advance c).2.stop ≠ none := by
  unfold ObservedStore.advance
  simp only
  split
  · exact Option.some_ne_none _
  · exact Option.some_ne_none _

/-- A cursor changes only when it is moved. -/
theorem getElem?_cursors_step {cursor : Nat} {c : EventCursor} (h : s.cursors[cursor]? = some c)
    (action : SessionAction) :
    (s.step action).cursors[cursor]? =
      some (if action.moves cursor then (s.observed.advance c).2 else c) := by
  cases action with
  | call call => exact h
  | view verb => exact h
  | iterate view =>
      rw [StoreSession.step, List.getElem?_append_left (List.getElem?_eq_some_iff.mp h).choose]
      exact h
  | advance other =>
      rw [StoreSession.step, List.getElem?_modify, h]
      simp [SessionAction.moves]

theorem reading?_of_moves {cursor : Nat} {c : EventCursor} (h : s.cursors[cursor]? = some c)
    {action : SessionAction} (hmoves : action.moves cursor = true) :
    s.reading? cursor action = some (s.observed.read c) := by
  rw [reading?, if_pos hmoves, h]
  rfl

theorem advance_of_moves {cursor : Nat} {action : SessionAction}
    (h : action.moves cursor = true) : action = .advance cursor := by
  cases action with
  | advance other => rw [eq_of_beq h]
  | call call => cases h
  | view verb => cases h
  | iterate view => cases h

/-- A cursor that has been moved gives what it has left, whatever else happens. -/
theorem HasLeft.readings {cursor : Nat} {c : EventCursor} {left : List Event}
    (hs : s.WellFormed) (h : s.cursors[cursor]? = some c) (hleft : HasLeft s.observed c left)
    (hstop : c.stop ≠ none) (actions : List SessionAction) :
    s.readings cursor actions =
      CursorReading.listing left (actions.countP (SessionAction.moves cursor)) := by
  induction actions generalizing s c left with
  | nil => exact (CursorReading.listing_zero left).symm
  | cons action rest ih =>
      have htaken := hs.taken c.view (hs.viewed c (List.mem_of_getElem? h))
      have hnext := getElem?_cursors_step h action
      cases hmoves : action.moves cursor with
      | false =>
          rw [hmoves, if_neg Bool.false_ne_true] at hnext
          have hcount : ¬ action.moves cursor = true := by
            rw [hmoves]
            exact Bool.false_ne_true
          rw [StoreSession.readings, reading?, if_neg hcount, List.countP_cons_of_neg hcount]
          exact ih (hs.step action) hnext (hleft.step htaken hstop action) hstop
      | true =>
          rw [hmoves, if_pos rfl] at hnext
          rcases hleft.advance with ⟨hread, hmore⟩
          rw [StoreSession.readings, reading?_of_moves h hmoves, hread,
            List.countP_cons_of_pos hmoves, CursorReading.listing_succ]
          rw [advance_of_moves hmoves] at hnext ⊢
          exact congrArg _ (ih (hs.step _) hnext hmore (stop_advance _ c))

/-- A cursor that is not moved stays where it is. -/
theorem getElem?_cursors_run {cursor : Nat} {c : EventCursor} {actions : List SessionAction}
    (hactions : forall a, a ∈ actions -> a.moves cursor = false)
    (h : s.cursors[cursor]? = some c) : (s.run actions).cursors[cursor]? = some c := by
  induction actions generalizing s with
  | nil => exact h
  | cons action rest ih =>
      have hstays : action.moves cursor = false := hactions action List.mem_cons_self
      refine ih (fun a ha => hactions a (List.mem_cons_of_mem action ha)) ?_
      rw [getElem?_cursors_step h, hstays]
      rfl

/-- Whatever happens before its first move and after it, a new cursor gives what its view showed at
the first move. -/
theorem WellFormed.readings_of_started (h : s.WellFormed) {view : Nat} {v : EventView}
    (hv : s.views[view]? = some v) {waiting : List SessionAction}
    (hwaiting : forall a, a ∈ waiting -> a.moves s.cursors.length = false)
    (later : List SessionAction) :
    (s.run (.iterate view :: waiting)).readings s.cursors.length
        (.advance s.cursors.length :: later) =
      CursorReading.listing ((s.run (.iterate view :: waiting)).observed.contents v)
        (later.countP (SessionAction.moves s.cursors.length) + 1) := by
  have hstarted : (s.step (.iterate view)).cursors[s.cursors.length]? = some v.cursor := by
    rw [StoreSession.step, hv]
    exact List.getElem?_concat_length
  have hcursor : (s.run (.iterate view :: waiting)).cursors[s.cursors.length]? = some v.cursor :=
    getElem?_cursors_run (s := s.step (.iterate view)) hwaiting hstarted
  have hwell := h.run (.iterate view :: waiting)
  generalize s.run (.iterate view :: waiting) = first at hcursor hwell ⊢
  have hmoves : SessionAction.moves s.cursors.length (.advance s.cursors.length) = true :=
    beq_self_eq_true _
  have hstart : HasLeft first.observed v.cursor (first.observed.contents v) :=
    hasLeft_of_not_moved first.observed rfl rfl
  rcases hstart.advance with ⟨hread, hleft⟩
  have hnext := getElem?_cursors_step hcursor (.advance s.cursors.length)
  rw [hmoves, if_pos rfl] at hnext
  rw [readings, reading?_of_moves hcursor hmoves, hread, CursorReading.listing_succ]
  exact congrArg _ (hleft.readings (hwell.step _) hnext (stop_advance _ _) later)

/-!
# Views that were taken
-/

theorem views_prefix_run (actions : List SessionAction) : s.views <+: (s.run actions).views := by
  induction actions generalizing s with
  | nil => exact List.prefix_rfl
  | cons action rest ih =>
      refine List.IsPrefix.trans ?_ ih
      cases action with
      | view verb => exact List.prefix_append _ _
      | call call => exact List.prefix_rfl
      | iterate view => exact List.prefix_rfl
      | advance cursor => exact List.prefix_rfl

/-- What a view of the session shows. -/
def shown (s : StoreSession) (view : Nat) : Option (List Event) :=
  s.views[view]?.map s.observed.contents

theorem shown_view (s : StoreSession) (verb : String) (actions : List SessionAction) :
    (s.run (.view verb :: actions)).shown s.views.length =
      some ((s.run (.view verb :: actions)).observed.contents (s.observed.view verb)) := by
  have htaken : (s.step (.view verb)).views[s.views.length]? = some (s.observed.view verb) :=
    List.getElem?_concat_length
  rcases views_prefix_run (s := s.step (.view verb)) actions with ⟨more, hmore⟩
  rw [shown, run, List.foldl_cons]
  rw [run] at hmore
  rw [← hmore, List.getElem?_append_left (List.getElem?_eq_some_iff.mp htaken).choose, htaken]
  rfl

/-!
# Stability
-/

/-- What can be done with views and cursors of a session whatever else is done. -/
structure Stable (s : StoreSession) : Prop where
  /-- Moving a cursor gives an event only if there is one to read. -/
  advances : forall c, (s.observed.advance c).1 = (s.observed.read c).event?
  /-- A cursor that is started now, waits and is then moved gives one by one what its view showed
  at its first move, and then nothing more. -/
  iterates : forall view v, s.views[view]? = some v -> forall waiting,
    (forall a, a ∈ waiting -> a.moves s.cursors.length = false) -> forall later,
    (s.run (.iterate view :: waiting)).readings s.cursors.length
        (.advance s.cursors.length :: later) =
      CursorReading.listing ((s.run (.iterate view :: waiting)).observed.contents v)
        (later.countP (SessionAction.moves s.cursors.length) + 1)
  /-- A view of a verb with events shows the stored ones until the store is cleared. -/
  follows : forall verb, s.eventsOf verb ≠ [] -> forall actions,
    (forall a, a ∈ actions -> a.isClearing = false) ->
    (s.run (.view verb :: actions)).shown s.views.length =
      some ((s.run (.view verb :: actions)).eventsOf verb)
  /-- Once the store is cleared it shows what was stored then. -/
  keeps : forall verb, s.eventsOf verb ≠ [] -> forall actions,
    (forall a, a ∈ actions -> a.isClearing = false) -> forall later,
    (s.run (.view verb :: (actions ++ .call .clear :: later))).shown s.views.length =
      some ((s.run (.view verb :: actions)).eventsOf verb)
  /-- A view of a verb without events shows nothing ever after. -/
  stays_empty : forall verb, s.eventsOf verb = [] -> forall actions,
    (s.run (.view verb :: actions)).shown s.views.length = some []

/-- Iteration is stable in every session, and views show what stands in the lists to which they
refer. -/
theorem iterates_stably (maxDepth : Int) (before : List SessionAction) :
    ((start maxDepth).run before).Stable ∧
      ((start maxDepth).run before).views.map ((start maxDepth).run before).observed.contents =
        (SharedLists.start.run (start maxDepth) before).views.map
          (SharedLists.start.run (start maxDepth) before).read := by
  have h := (wellFormed_start maxDepth).run before
  refine ⟨?_, ((SharedLists.backs_start maxDepth).run before).map_contents⟩
  generalize (start maxDepth).run before = s at h
  have hclearing : forall verb actions, (forall a, a ∈ actions -> a.isClearing = false) ->
      forall a, a ∈ SessionAction.view verb :: actions -> a.isClearing = false := by
    intro verb actions hactions a ha
    rcases List.mem_cons.mp ha with rfl | hrest
    · rfl
    · exact hactions a hrest
  constructor
  case advances => exact s.observed.fst_advance
  case iterates => exact fun view v hv waiting hwaiting => h.readings_of_started hv hwaiting
  case follows =>
    intro verb hverb actions hactions
    rw [shown_view]
    exact congrArg some (h.contents_view hverb (hclearing verb actions hactions))
  case keeps =>
    intro verb hverb actions hactions later
    rw [shown_view]
    exact congrArg some (h.contents_view_cleared hverb (hclearing verb actions hactions) later)
  case stays_empty =>
    intro verb hverb actions
    rw [shown_view]
    exact congrArg some (h.contents_view_of_unseen hverb _)

/-- Someone arrives at a place. -/
def arriving (place : String) : Compound :=
  ⟨⟨"arrives", by decide⟩, [.text place]⟩

-- the cursor waits while its view grows; once moved it sees no later event and loses none
example :
    ((start 50).run [.call (.append (arriving "paris") "2024-01-01"), .view "arrives", .iterate 0,
      .call (.append (arriving "rome") "2024-02-01")]).readings 0
      [.advance 0, .call (.append (arriving "oslo") "2024-03-01"), .call .clear,
        .advance 0, .advance 0] =
    [.event ⟨1, arriving "paris", "2024-01-01"⟩, .event ⟨2, arriving "rome", "2024-02-01"⟩,
      .finished] := by
  decide +kernel

end StoreSession
end EventCalculus
