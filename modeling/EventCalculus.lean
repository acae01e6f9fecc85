import EventCalculus.Archive.Basic
import EventCalculus.Archive.Facts
import EventCalculus.Archive.File
import EventCalculus.Archive.Snapshot
import EventCalculus.Audit.Entry
import EventCalculus.Audit.Log
import EventCalculus.Audit.Size
import EventCalculus.Calendar.Instant
import EventCalculus.Calendar.Parts
import EventCalculus.Calendar.Timestamp
import EventCalculus.Console.Banner
import EventCalculus.Console.Command
import EventCalculus.Console.Loop
import EventCalculus.Console.Session
import EventCalculus.Engine.Basic
import EventCalculus.Engine.Opening
import EventCalculus.Engine.Question
import EventCalculus.Fault
import EventCalculus.Fluent.Derivation
import EventCalculus.Fluent.Holding
import EventCalculus.Fluent.Query
import EventCalculus.Fluent.Timeline
import EventCalculus.Json.Parser
import EventCalculus.Json.Printer
import EventCalculus.Json.Token
import EventCalculus.Main
import EventCalculus.Memory
import EventCalculus.Numeric.Binary64
import EventCalculus.Numeric.Decimal
import EventCalculus.Numeric.Literal
import EventCalculus.Numeric.Number
import EventCalculus.OrderedMap
import EventCalculus.Rule.Basic
import EventCalculus.Rule.Compilation
import EventCalculus.Rule.Exclusive
import EventCalculus.Rule.Record
import EventCalculus.Rule.RuleSet
import EventCalculus.Rule.Rulebook
import EventCalculus.Rule.Taxonomy
import EventCalculus.Settings.Basic
import EventCalculus.Settings.File
import EventCalculus.Settings.Location
import EventCalculus.Settings.Quantity
import EventCalculus.Statement.Event
import EventCalculus.Statement.Learning
import EventCalculus.Statement.Model
import EventCalculus.Statement.Naming
import EventCalculus.Statement.Reading
import EventCalculus.Statement.Reply
import EventCalculus.Statement.Warning
import EventCalculus.Store.Basic
import EventCalculus.Store.View
import EventCalculus.Term.Basic
import EventCalculus.Term.Match
import EventCalculus.Term.Name
import EventCalculus.Term.Parser
import EventCalculus.Term.Printer
import EventCalculus.Term.Token
import EventCalculus.Text.Blank
import EventCalculus.Text.Digit
import EventCalculus.Text.Lowercase
import EventCalculus.Text.LowercaseTable
import EventCalculus.Text.Printable
import EventCalculus.Text.Quoted
import EventCalculus.Text.Ranges
import EventCalculus.Value.Basic
import EventCalculus.Value.Construction
import EventCalculus.Value.Form
import EventCalculus.Value.Printer
import EventCalculus.Proofs.Lookup
import EventCalculus.Proofs.Sameness
import EventCalculus.Proofs.Distinct
import EventCalculus.Proofs.Reachability
import EventCalculus.Proofs.Semantics
import EventCalculus.Proofs.Chronology
import EventCalculus.Proofs.QueryAnswers
import EventCalculus.Proofs.Sampling
import EventCalculus.Proofs.ExclusiveRegister
import EventCalculus.Proofs.TimelineIntervals
import EventCalculus.Proofs.DecimalReading
import EventCalculus.Proofs.DecimalText
import EventCalculus.Proofs.TermText
import EventCalculus.Proofs.Determinacy
import EventCalculus.Proofs.RulebookGrowth
import EventCalculus.Proofs.OrderIndependence
import EventCalculus.Proofs.HoldingState
import EventCalculus.Proofs.NumeralText
import EventCalculus.Proofs.Stems
import EventCalculus.Proofs.SurfaceTokens
import EventCalculus.Proofs.SurfaceReading
import EventCalculus.Proofs.TextFidelity
import EventCalculus.Proofs.ArchiveHistory
import EventCalculus.Proofs.ArchiveLoading
import EventCalculus.Proofs.RecordText
import EventCalculus.Proofs.TimestampText
import EventCalculus.Proofs.AnswerSets
import EventCalculus.Proofs.KeptRecords
import EventCalculus.Proofs.SnapshotRestore
import EventCalculus.Proofs.SoundTaxonomy
import EventCalculus.Proofs.EngineHistory
import EventCalculus.Proofs.SharedRegister
import EventCalculus.Proofs.PastAnswers
import EventCalculus.Proofs.FactLines
import EventCalculus.Proofs.CutTexts
import EventCalculus.Proofs.FactExchange
import EventCalculus.Proofs.LearnedRecords
import EventCalculus.Proofs.FailedAssertion
import EventCalculus.Proofs.KeptRules
import EventCalculus.Proofs.ResetAnswers
import EventCalculus.Proofs.MatchedTerms
import EventCalculus.Proofs.SubjectIsolation
import EventCalculus.Proofs.SortedSearch
import EventCalculus.Proofs.StoreContents
import EventCalculus.Proofs.HoldingStart
import EventCalculus.Proofs.HoldingForms
import EventCalculus.Proofs.SubjectReading
import EventCalculus.Proofs.TimestampOrder
import EventCalculus.Proofs.RegisteredRules
import EventCalculus.Proofs.MostGeneralMatch
import EventCalculus.Proofs.GrammarReading
import EventCalculus.Proofs.LinearPatterns
import EventCalculus.Proofs.SingleEvent
import EventCalculus.Proofs.CopiedArguments
import EventCalculus.Proofs.RecordInitiations
import EventCalculus.Proofs.DroppedTerminations
import EventCalculus.Proofs.UnknownVerbs
import EventCalculus.Proofs.RepeatedLessons
import EventCalculus.Proofs.HeldHistory
import EventCalculus.Proofs.FactImport
import EventCalculus.Proofs.ArchivedRecords
import EventCalculus.Proofs.StableIteration
import EventCalculus.Proofs.RememberedStatements
import EventCalculus.Proofs.LongNumerals
import EventCalculus.Proofs.ConsoleStates
import EventCalculus.Proofs.CommandLines
import EventCalculus.Proofs.CommandFaults
import EventCalculus.Proofs.TypedEvents
import EventCalculus.Proofs.DigitRuns
import EventCalculus.Proofs.LogRotation
import EventCalculus.Proofs.SettingsLoading
import EventCalculus.Proofs.StatedCompounds
import EventCalculus.Proofs.UnusableReplies
import EventCalculus.Proofs.FencedReplies
import EventCalculus.Proofs.KeptLessons
import EventCalculus.Proofs.TextIdentity
