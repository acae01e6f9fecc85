import EventCalculus.Engine.Basic
import EventCalculus.Settings.Basic

/-!
# Engines with settings

The settings fix the first current date of an engine and how deep its events may
nest.
-/

namespace EventCalculus
namespace Engine

/-- An engine with settings; `today` stands in for a date that is not set. -/
def ofSettings (s : Settings) (today : Moment) (audit : Option AuditLog) : Except Fault Engine :=
  create ((s.currentDate.map Moment.text).getD today)
    (s.maxTermDepth.floor?.getD EventStore.defaultMaxDepth) Taxonomy.standard audit

end Engine
end EventCalculus
