import SchemaStitching.Distinct
import SchemaStitching.Format.Node
import SchemaStitching.Proofs.Building
import SchemaStitching.Proofs.CommentLines
import SchemaStitching.Proofs.DistinctItems
import SchemaStitching.Proofs.DottedTexts
import SchemaStitching.Proofs.EqualNodes
import SchemaStitching.Proofs.HydratedFields
import SchemaStitching.Proofs.Itineraries
import SchemaStitching.Proofs.LocationOrder
import SchemaStitching.Proofs.LocationTexts
import SchemaStitching.Proofs.Lookups
import SchemaStitching.Proofs.Margins
import SchemaStitching.Proofs.Obtained
import SchemaStitching.Proofs.Pruning
import SchemaStitching.Proofs.Respelling
import SchemaStitching.Proofs.SpanBounds
import SchemaStitching.Proofs.SpanTexts
import SchemaStitching.Proofs.SurveyReports
import SchemaStitching.Proofs.SurveyedNodes
import SchemaStitching.Proofs.Unambiguity
