import ClassDraft.Draft.Edit
import ClassDraft.Options.Reader
import ClassDraft.Proofs.UseList
import ClassDraft.SourceFile
import ClassDraft.Proofs.Settling
import ClassDraft.Proofs.Absorption
import ClassDraft.Proofs.Bisection
import ClassDraft.Proofs.Roster
import ClassDraft.Proofs.Reachable
import ClassDraft.Proofs.ClassPath
import ClassDraft.Proofs.UsedPaths
import ClassDraft.Proofs.Rows
import ClassDraft.Proofs.Layout
import ClassDraft.Proofs.WellFormed
import ClassDraft.Proofs.Composition
import ClassDraft.Proofs.CommentErasure
import ClassDraft.Proofs.RosterHistory
import ClassDraft.Proofs.UseHistory
import ClassDraft.Proofs.ConstantNames
import ClassDraft.Proofs.FileText
import ClassDraft.Proofs.Admission
import ClassDraft.Proofs.DocBlock
import ClassDraft.Proofs.LogicalLines
import ClassDraft.Proofs.CommentLines
import ClassDraft.Proofs.SingleLine
import ClassDraft.Proofs.TrailingBlanks
import ClassDraft.Proofs.Lookup
import ClassDraft.Proofs.Offers
import ClassDraft.Proofs.Renaming
import ClassDraft.Proofs.BodyText
import ClassDraft.Proofs.Unions
import ClassDraft.Proofs.SignatureOrder
import ClassDraft.Proofs.CommentReading
import ClassDraft.Proofs.PathGrammar
import ClassDraft.Proofs.Header
import ClassDraft.Proofs.TidyValues
import ClassDraft.Proofs.PartitionedKeys
