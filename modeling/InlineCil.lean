import InlineCil.Draft
import InlineCil.Weave
import InlineCil.Proofs.Expression
import InlineCil.Proofs.Expression.Completeness
import InlineCil.Proofs.Expression.Soundness
import InlineCil.Proofs.References
import InlineCil.Proofs.Order
import InlineCil.Proofs.Removal
import InlineCil.Proofs.Expression.Exactness
import InlineCil.Proofs.Pass
import InlineCil.Proofs.Outcome
import InlineCil.Proofs.Arguments
import InlineCil.Proofs.Occupancy
import InlineCil.Proofs.Layout
import InlineCil.Proofs.Fate
import InlineCil.Proofs.Framing
import InlineCil.Proofs.Framing.Rules
import InlineCil.Proofs.Framing.Whole
import InlineCil.Proofs.Encoding
import InlineCil.Proofs.Encoding.Labels
import InlineCil.Proofs.Encoding.Operands
import InlineCil.Proofs.Encoding.Progress
import InlineCil.Proofs.Encoding.Rules
import InlineCil.Proofs.Encoding.Whole
import InlineCil.Proofs.Encoding.Closing
import InlineCil.Proofs.Promise
import InlineCil.Proofs.Lookups
import InlineCil.Proofs.Expression.Inheritance
import InlineCil.Proofs.Expression.Restraint
import InlineCil.Proofs.Integrity
import InlineCil.Proofs.Integrity.Rules
import InlineCil.Proofs.Integrity.Whole
import InlineCil.Proofs.Locality
import InlineCil.Proofs.Unreachable
import InlineCil.Proofs.Regions
import InlineCil.Proofs.Edits
import InlineCil.Proofs.Arena
import InlineCil.Proofs.Arena.Edits
import InlineCil.Proofs.Arena.Refinement
import InlineCil.Proofs.Liveness
import InlineCil.Proofs.Confluence
import InlineCil.Proofs.Labels
import InlineCil.Proofs.Labels.Lasting
import InlineCil.Proofs.Labels.Rules
import InlineCil.Proofs.Labels.Visits
import InlineCil.Proofs.Labels.Whole
import InlineCil.Proofs.StackSafety
import InlineCil.Proofs.Resolution
import InlineCil.Proofs.Inquiry
import InlineCil.Proofs.Inquiry.Steps
import InlineCil.Proofs.Inquiry.Readers
import InlineCil.Proofs.Inquiry.Rules
import InlineCil.Proofs.Independence
import InlineCil.Proofs.Loading
import InlineCil.Proofs.Expression.Recursion
import InlineCil.Proofs.Termination
import InlineCil.Proofs.Arrays
import InlineCil.Proofs.Conversions
import InlineCil.Proofs.Candidates
import InlineCil.Proofs.Blocks.Runs
import InlineCil.Proofs.Locals
import InlineCil.Proofs.Naming
import InlineCil.Proofs.Points
import InlineCil.Proofs.Points.Sites
import InlineCil.Proofs.Points.Whole
import InlineCil.Proofs.Locating
import InlineCil.Proofs.Assembling.Drafts
import InlineCil.Proofs.Composition.Readers
