import AndroidStrings.Main
import AndroidStrings.Proofs.Document.Canonical
import AndroidStrings.Proofs.Document.DistinctKeys
import AndroidStrings.Proofs.Document.Failure
import AndroidStrings.Proofs.Document.LineEnding
import AndroidStrings.Proofs.Document.Places
import AndroidStrings.Proofs.Document.Remarks
import AndroidStrings.Proofs.Project.Refinement
import AndroidStrings.Proofs.Project.Unused
import AndroidStrings.Proofs.Project.AppliedPairs
import AndroidStrings.Proofs.Document.OpenedEntry
import AndroidStrings.Proofs.Project.Repetition
import AndroidStrings.Proofs.Document.CreatedKeys
import AndroidStrings.Proofs.Project.EditedKeys
import AndroidStrings.Proofs.CommandLine.Edit
import AndroidStrings.Proofs.CommandLine.ValidNames
import AndroidStrings.Proofs.CommandLine.Orphans
import AndroidStrings.Proofs.CommandLine.Completion
import AndroidStrings.Proofs.Check.Options
import AndroidStrings.Proofs.Project.RemovedIssues
import AndroidStrings.Proofs.Check.Rearrangement
import AndroidStrings.Proofs.Check.Drift
import AndroidStrings.Proofs.Document.Addition
import AndroidStrings.Proofs.Document.Undone
import AndroidStrings.Proofs.Check.SelfCheck
import AndroidStrings.Proofs.Check.AddedEntry
import AndroidStrings.Proofs.Project.AddedIssues
import AndroidStrings.Proofs.Document.StoredTwice
import AndroidStrings.Proofs.Document.RawForm
import AndroidStrings.Proofs.Value.StoredForm
import AndroidStrings.Proofs.Value.MarkedUp
import AndroidStrings.Proofs.Check.StoredPlaceholder
import AndroidStrings.Proofs.Document.Storable
import AndroidStrings.Proofs.Value.Composed
import AndroidStrings.Proofs.Value.Reference
import AndroidStrings.Proofs.Value.Nesting
import AndroidStrings.Proofs.Value.Assignment
import AndroidStrings.Proofs.Value.TagAttribute
import AndroidStrings.Proofs.Document.RemovedText
import AndroidStrings.Proofs.Document.FormsReadBack
import AndroidStrings.Proofs.Document.RootExtent
import AndroidStrings.Proofs.Document.KeptAttributes
import AndroidStrings.Proofs.Document.DistinctQuantities
import AndroidStrings.Proofs.Document.CheckedEdits
import AndroidStrings.Proofs.Document.LeadingMark
import AndroidStrings.Proofs.Document.SortedStore
import AndroidStrings.Proofs.Check.Comparison
import AndroidStrings.Proofs.Project.Reference
import AndroidStrings.Proofs.Project.SkippedFiles
import AndroidStrings.Proofs.CommandLine.Language
import AndroidStrings.Proofs.Check.Distance
