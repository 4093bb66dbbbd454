import ClassMap.Main
import ClassMap.Warning
import ClassMap.Proofs.Columns
import ClassMap.Proofs.Constraints
import ClassMap.Proofs.Names
import ClassMap.Proofs.Suppression
import ClassMap.Proofs.Inheritance
import ClassMap.Proofs.ForeignKeys
import ClassMap.Proofs.Keys
import ClassMap.Proofs.Cycle
import ClassMap.Proofs.Hierarchy.Reordering
import ClassMap.Proofs.Schema.Agreement
import ClassMap.Proofs.Resolution.Reordering
import ClassMap.Proofs.DeclarationOrder
import ClassMap.Proofs.Unfolding
import ClassMap.Proofs.Extents
import ClassMap.Proofs.TypeChecks
import ClassMap.Proofs.Resolution.JoinTable
import ClassMap.Proofs.JoinColumns
import ClassMap.Proofs.Counterparts
import ClassMap.Proofs.MemberTable
import ClassMap.Proofs.NameClashes
import ClassMap.Proofs.SparseEncoding
import ClassMap.Proofs.Spelling
import ClassMap.Proofs.TableLookup
import ClassMap.Proofs.Files.Edits
import ClassMap.Proofs.Files.Folders
import ClassMap.Proofs.Output.Unreliable
import ClassMap.Proofs.AllOrNothing
import ClassMap.Proofs.Recognized.Classes
import ClassMap.Proofs.Recognized.Members
import ClassMap.Proofs.Recognized.Resolution
import ClassMap.Proofs.Inert
import ClassMap.Proofs.Output.Foreign
import ClassMap.Proofs.Files.Joined
import ClassMap.Proofs.Files.Sound
import ClassMap.Proofs.Output.Staging
import ClassMap.Proofs.Output.Sources
import ClassMap.Proofs.Repetition
import ClassMap.Proofs.Patching
import ClassMap.Proofs.FieldOrder
import ClassMap.Proofs.NestedColumns
import ClassMap.Proofs.Resolution.Mirrored
import ClassMap.Proofs.Resolution.Mapped
import ClassMap.Proofs.Members.Settled
import ClassMap.Proofs.Restatement
import ClassMap.Proofs.Hierarchy.Navigation
import ClassMap.Proofs.Resolution.Faults
import ClassMap.Proofs.SupertypeCycles
import ClassMap.Proofs.Hierarchy.Subtyping
import ClassMap.Proofs.ParameterizedSupertypes
import ClassMap.Proofs.WrittenTypes
import ClassMap.Proofs.Indices
import ClassMap.Proofs.Files.Beside
import ClassMap.Proofs.Output.Placed
import ClassMap.Proofs.Files.Order
import ClassMap.Proofs.Files.Around
import ClassMap.Proofs.DefaultScan
import ClassMap.Proofs.TypeLists
import ClassMap.Proofs.BackingClasses
import ClassMap.Proofs.Resolution.Arguments
import ClassMap.Proofs.ProcedureTags
import ClassMap.Proofs.Files.Patterns
import ClassMap.Proofs.Files.Globbing
import ClassMap.Proofs.Files.Selected
import ClassMap.Proofs.Removal
