import SchemaSets.DescriptionDiff
import SchemaSets.Element.Document
import SchemaSets.Element.Reader
import SchemaSets.Files.Tree
import SchemaSets.Json.Reader
import SchemaSets.Main
import SchemaSets.Settings.Document
import SchemaSets.Workspace
import SchemaSets.Proofs.Fits
import SchemaSets.Proofs.Links
import SchemaSets.Proofs.Parts
import SchemaSets.Proofs.Alike
import SchemaSets.Proofs.Walk
import SchemaSets.Proofs.Describes
import SchemaSets.Proofs.Absence
import SchemaSets.Proofs.Reach
import SchemaSets.Proofs.Meaning
import SchemaSets.Proofs.Pointer
import SchemaSets.Proofs.JsonValues
import SchemaSets.Proofs.Agreement
import SchemaSets.Proofs.Steps.Machine
import SchemaSets.Proofs.Steps.Walking
import SchemaSets.Proofs.Steps.Searching
import SchemaSets.Proofs.Steps.Ending
import SchemaSets.Proofs.Reading
import SchemaSets.Proofs.Checked
import SchemaSets.Proofs.Nodes
import SchemaSets.Proofs.Exactness
import SchemaSets.Proofs.Required
import SchemaSets.Proofs.Documents
import SchemaSets.Proofs.SelfContained
import SchemaSets.Proofs.Delimited
import SchemaSets.Proofs.Unambiguous
import SchemaSets.Proofs.Bare
import SchemaSets.Proofs.Unsigned
import SchemaSets.Proofs.Equivalence
import SchemaSets.Proofs.Scoped
import SchemaSets.Proofs.Locality
import SchemaSets.Proofs.BranchOrder
import SchemaSets.Proofs.Indirection
import SchemaSets.Proofs.Dangling
import SchemaSets.Proofs.Strictness
import SchemaSets.Proofs.Loosening
import SchemaSets.Proofs.Families
import SchemaSets.Proofs.Written
import SchemaSets.Proofs.Printed
import SchemaSets.Proofs.RoundTrip
import SchemaSets.Proofs.Building
import SchemaSets.Proofs.Sessions
import SchemaSets.Proofs.Placed
import SchemaSets.Proofs.Opaque
import SchemaSets.Proofs.Deferred.Basic
import SchemaSets.Proofs.Deferred.Demand
import SchemaSets.Proofs.Deferred.Walking
import SchemaSets.Proofs.Deferred.Searching
import SchemaSets.Proofs.Deferred.Rendering
import SchemaSets.Proofs.Deferred.Describing
import SchemaSets.Proofs.Deferred.LiveSet
import SchemaSets.Proofs.Laziness
import SchemaSets.Proofs.Paths
import SchemaSets.Proofs.Labels
import SchemaSets.Proofs.Outliving
import SchemaSets.Proofs.Drafts
import SchemaSets.Proofs.Denotation
import SchemaSets.Proofs.Composition
import SchemaSets.Proofs.Origins
import SchemaSets.Proofs.Locations
import SchemaSets.Proofs.Exported
import SchemaSets.Proofs.Malformed
import SchemaSets.Proofs.Differences
import SchemaSets.Proofs.Escapes
import SchemaSets.Proofs.FileTrees
import SchemaSets.Proofs.Tasks
import SchemaSets.Proofs.DocumentFiles
