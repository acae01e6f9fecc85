import EventCalculus.Json.Parser
import EventCalculus.Rule.Record
import EventCalculus.Statement.Event

/-!
# Warnings

What goes wrong with replies of a language model without stopping anything.
-/

namespace EventCalculus

/-- A mishap that leaves something out. -/
inductive Warning where
  | readingFailed (cause : String)
  | readingReply (fault : Json.ReadFault)
  | readingShape
  | readingItem (item : Value)
  | learningFailed (verb cause : String)
  | learningReply (verb : String) (fault : Json.ReadFault)
  | learningShape (verb : String)
  | learningRecord (verb : String) (fault : RecordFault)
  | unusableEvent (event : StatedEvent) (fault : StatedEventFault)
  | rejectedRules (verb : String) (fault : RecordFault)

/-- The wording of a warning. -/
def Warning.message : Warning -> String
  | .readingFailed cause => "Event parsing failed: " ++ cause
  | .readingReply fault => "Failed to parse event response: " ++ fault.message
  | .readingShape => "Invalid response structure: 'events' is not a list"
  | .readingItem item => "Skipping invalid event item: " ++ item.display
  | .learningFailed verb cause => "Rule learning failed for " ++ verb ++ ": " ++ cause
  | .learningReply verb fault =>
      "Failed to parse rule response for " ++ verb ++ ": " ++ fault.message
  | .learningShape verb => "Invalid rule response for " ++ verb ++ ": expected an object"
  | .learningRecord verb fault => "Invalid rule record for " ++ verb ++ ": " ++ fault.message
  | .unusableEvent event fault =>
      "Skipping unusable event " ++ event.inspect ++ ": " ++ fault.message
  | .rejectedRules verb fault =>
      "Learned rules for " ++ verb ++ " were rejected: " ++ fault.message

end EventCalculus
