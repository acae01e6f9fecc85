import EventCalculus.Archive.Basic

/-!
# Snapshots

A snapshot saves the records and events of an engine; restoring replays them,
records first.
-/

namespace EventCalculus
namespace Archive

/-- Saves the records and events of an engine and counts the new events. -/
def snapshot (a : Archive) (e : Engine) : Nat × Archive :=
  (e.records.values.foldl saveRecord a).saveEvents (e.store.between none none)

/-- Learns the rules of records up to the first fault. -/
def replayRecords (e : Engine) : List RuleRecord -> Except Fault Unit × Engine
  | [] => (.ok (), e)
  | r :: rest =>
      match e.learn (.record r) with
      | (.error fault, e) => (.error fault, e)
      | (.ok _, e) => replayRecords e rest

/-- Asserts events up to the first fault. -/
def replayEvents (e : Engine) : List Event -> Except Fault Unit × Engine
  | [] => (.ok (), e)
  | event :: rest =>
      match e.assertEvent (.term event.description) (.text event.timestamp) with
      | (.error fault, e) => (.error fault, e)
      | (.ok _, e) => replayEvents e rest

/-- Replays the archive into an engine and counts the events. -/
def restore (a : Archive) (e : Engine) : Except Fault Nat × Engine :=
  match a.loadRecords with
  | .error fault => (.error fault, e)
  | .ok records =>
      match replayRecords e records with
      | (.error fault, e) => (.error fault, e)
      | (.ok _, e) =>
          match a.loadEvents none none with
          | .error fault => (.error fault, e)
          | .ok events =>
              match replayEvents e events with
              | (.error fault, e) => (.error fault, e)
              | (.ok _, e) => (.ok events.length, e)

end Archive
end EventCalculus
