import ApiSurface.NameTable
import ApiSurface.Json.Model
import ApiSurface.Line.Group
import ApiSurface.Erasure.Formal
import ApiSurface.Erasure.Unresolved
import ApiSurface.Merge.Report
import ApiSurface.Settings.Load
import ApiSurface.Proofs.Grouping
import ApiSurface.Proofs.Merge.Body
import ApiSurface.Proofs.Merge.Copies
import ApiSurface.Proofs.Merge.Dropped
import ApiSurface.Proofs.Merge.Erased
import ApiSurface.Proofs.Merge.Homogeneous
import ApiSurface.Proofs.Merge.Order
import ApiSurface.Proofs.Merge.Overloads
import ApiSurface.Proofs.Merge.SelfMerge
import ApiSurface.Proofs.Line.Annot
import ApiSurface.Proofs.Line.Entity
import ApiSurface.Proofs.Line.Group
import ApiSurface.Proofs.Line.Reread
import ApiSurface.Proofs.Line.Snapshot
import ApiSurface.Proofs.Erasure.Groups
import ApiSurface.Proofs.Erasure.Idempotence
import ApiSurface.Proofs.Erasure.Residue
import ApiSurface.Proofs.Erasure.Exceptions
import ApiSurface.Proofs.Merge.Exceptions
import ApiSurface.Proofs.Merge.Referenced
import ApiSurface.Proofs.Merge.DroppedClasses
import ApiSurface.Proofs.Valid
import ApiSurface.Proofs.Merge.Valid
import ApiSurface.Proofs.Merge.Seen
import ApiSurface.Proofs.Merge.Relaxed
import ApiSurface.Proofs.Merge.Outline
import ApiSurface.Proofs.Merge.RelaxedReport
import ApiSurface.Proofs.Json
import ApiSurface.Proofs.Erasure.Formal
import ApiSurface.Proofs.Line.Grammar
import ApiSurface.Proofs.Line.AnnotShape
import ApiSurface.Proofs.Line.Spelled
import ApiSurface.Proofs.Merge.Written
import ApiSurface.Proofs.Line.Accepted
import ApiSurface.Proofs.Merge.Access
import ApiSurface.Proofs.Merge.Parts
import ApiSurface.Proofs.Erasure.Resolution
import ApiSurface.Proofs.Merge.ExactPromotion
import ApiSurface.Proofs.Erasure.Reported
import ApiSurface.Proofs.Erasure.Declaration
import ApiSurface.Proofs.Erasure.VariableBound
import ApiSurface.Proofs.Merge.Superclass
import ApiSurface.Proofs.Line.Filed
import ApiSurface.Proofs.Line.Concat
import ApiSurface.Proofs.Merge.Reconciled
import ApiSurface.Proofs.Merge.Hierarchy
import ApiSurface.Proofs.Merge.Collisions
import ApiSurface.Proofs.NameTable
import ApiSurface.Proofs.Merge.Packages
import ApiSurface.Proofs.Erasure.Listing
import ApiSurface.Proofs.Line.Bracketed
import ApiSurface.Proofs.Merge.Twin
import ApiSurface.Proofs.Settings
