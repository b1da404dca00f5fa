import LocatedHtml.Document.Inline
import LocatedHtml.Document.Rendering
import LocatedHtml.Forest.Copy
import LocatedHtml.Forest.LinkedCopy
import LocatedHtml.Forest.Links
import LocatedHtml.Main
import LocatedHtml.Proofs.CanonicalReading
import LocatedHtml.Proofs.DocumentShape
import LocatedHtml.Proofs.ImpliedEnds
import LocatedHtml.Proofs.Nested.BehindComment
import LocatedHtml.Proofs.Nested.InlineDocuments
import LocatedHtml.Proofs.NormalForm
import LocatedHtml.Proofs.SourceLocations
import LocatedHtml.Proofs.Store.Rendering
import LocatedHtml.Proofs.Construction.Entries
import LocatedHtml.Proofs.Construction.Deliveries
import LocatedHtml.Proofs.ContentKept
import LocatedHtml.Proofs.Construction.Separation
import LocatedHtml.Proofs.DocumentOrder
import LocatedHtml.Proofs.Construction.Spacing
import LocatedHtml.Proofs.NestedExtents
import LocatedHtml.Proofs.Lexing.Refusals
import LocatedHtml.Proofs.Construction.Safety
import LocatedHtml.Proofs.SafeReading
import LocatedHtml.Proofs.Spans.Markup
import LocatedHtml.Proofs.VerbatimReading
import LocatedHtml.Proofs.AttributeNames
import LocatedHtml.Proofs.MergedAttributes
import LocatedHtml.Proofs.LinkedEdits
import LocatedHtml.Proofs.CopiedTrees
import LocatedHtml.Proofs.EditedDocuments
import LocatedHtml.Proofs.CommentExtents
import LocatedHtml.Proofs.RefusedMoves
import LocatedHtml.Proofs.Spans.Resolution
import LocatedHtml.Proofs.Text.Reindenting
import LocatedHtml.Proofs.LineTables
import LocatedHtml.Proofs.Nested.ContainerSpans
import LocatedHtml.Proofs.Spans.Attributes
import LocatedHtml.Proofs.Spans.Ordered
import LocatedHtml.Proofs.Text.CommonMargin
import LocatedHtml.Proofs.DecodedSources
import LocatedHtml.Proofs.RecordFiles
import LocatedHtml.Proofs.InjectedElements
import LocatedHtml.Proofs.RecursiveWalks
