import EventCalculus.Store.Basic

/-!
# Views of a store

A view shows the events of one verb.  It follows the store while events are
appended; once the store is cleared it keeps what it showed last.  A view of a
verb that has no events yet stays empty.

A cursor walks over a view.  It stops where the view ended when the cursor was
first moved.
-/

namespace EventCalculus

/-- A store with the indices by verb that former clearings left behind, the oldest first. -/
structure ObservedStore where
  store : EventStore
  retired : List (OrderedMap String (List Event))

/-- The events of a verb since some clearing, or nothing. -/
inductive EventView where
  | nothing
  | events (generation : Nat) (verb : String)
deriving DecidableEq

/-- A position in a view, and where to stop once it is known. -/
structure EventCursor where
  view : EventView
  position : Nat
  stop : Option Nat
deriving DecidableEq

namespace ObservedStore

/-- The store without events and without a past. -/
def empty (maxDepth : Int) : ObservedStore :=
  ⟨EventStore.empty maxDepth, []⟩

/-- The number of clearings so far. -/
def generation (s : ObservedStore) : Nat :=
  s.retired.length

/-- The index by verb of a generation. -/
def index (s : ObservedStore) (generation : Nat) : OrderedMap String (List Event) :=
  (s.retired[generation]?).getD s.store.byVerb

/-- Appends an event if its description can be stored. -/
def append (s : ObservedStore) (t : Term) (timestamp : String) :
    Except EventFault (Event × ObservedStore) :=
  (s.store.append t timestamp).map fun (e, store) => (e, { s with store := store })

/-- Removes every event; views keep theirs. -/
def clear (s : ObservedStore) : ObservedStore :=
  ⟨s.store.clear, s.retired ++ [s.store.byVerb]⟩

/-- The view of a verb. -/
def view (s : ObservedStore) (verb : String) : EventView :=
  if s.store.byVerb.contains verb then .events s.generation verb else .nothing

/-- The events that a view shows. -/
def contents (s : ObservedStore) : EventView -> List Event
  | .nothing => []
  | .events generation verb => ((s.index generation).get? verb).getD []

/-- The next event of a cursor, none at its end, and the cursor after it. -/
def advance (s : ObservedStore) (c : EventCursor) : Option Event × EventCursor :=
  let events := s.contents c.view
  let stop := c.stop.getD events.length
  if c.position < stop then
    (events[c.position]?, ⟨c.view, c.position + 1, some stop⟩)
  else
    (none, ⟨c.view, c.position, some stop⟩)

end ObservedStore

/-- A cursor at the start of a view. -/
def EventView.cursor (v : EventView) : EventCursor :=
  ⟨v, 0, none⟩

end EventCalculus
