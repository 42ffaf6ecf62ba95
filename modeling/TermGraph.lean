import TermGraph.Arena.Access
import TermGraph.Arena.Basic
import TermGraph.Arena.Build
import TermGraph.Arena.Descent
import TermGraph.Arena.Equality
import TermGraph.Arena.NormalForm
import TermGraph.Arena.Occurrence
import TermGraph.Arena.Print
import TermGraph.Arena.Replace
import TermGraph.Arena.View
import TermGraph.Binary64
import TermGraph.Decimal
import TermGraph.Error
import TermGraph.HostValue
import TermGraph.Interchange
import TermGraph.Name
import TermGraph.Payload
import TermGraph.Proofs.Building
import TermGraph.Proofs.Closures
import TermGraph.Proofs.Collecting
import TermGraph.Proofs.CommonPool
import TermGraph.Proofs.Comparisons
import TermGraph.Proofs.Confinement
import TermGraph.Proofs.Consistency
import TermGraph.Proofs.Construction
import TermGraph.Proofs.Contents
import TermGraph.Proofs.ControlAtoms
import TermGraph.Proofs.Discipline
import TermGraph.Proofs.Distinct
import TermGraph.Proofs.Effects
import TermGraph.Proofs.Equalities
import TermGraph.Proofs.Extension
import TermGraph.Proofs.Factorization
import TermGraph.Proofs.FixedPoints
import TermGraph.Proofs.FreshNames
import TermGraph.Proofs.History
import TermGraph.Proofs.Instances
import TermGraph.Proofs.Listing
import TermGraph.Proofs.Lookup
import TermGraph.Proofs.Mapping
import TermGraph.Proofs.Matching
import TermGraph.Proofs.NormalText
import TermGraph.Proofs.Normalization
import TermGraph.Proofs.Numbering
import TermGraph.Proofs.Outcome
import TermGraph.Proofs.PartialNumbering
import TermGraph.Proofs.Postorder
import TermGraph.Proofs.Precedence
import TermGraph.Proofs.Printing
import TermGraph.Proofs.Projections
import TermGraph.Proofs.Quoting
import TermGraph.Proofs.Readback
import TermGraph.Proofs.Rebuilding
import TermGraph.Proofs.Recursion
import TermGraph.Proofs.Refusal
import TermGraph.Proofs.Remaking
import TermGraph.Proofs.Rendering
import TermGraph.Proofs.Renumbering
import TermGraph.Proofs.Sameness
import TermGraph.Proofs.Session
import TermGraph.Proofs.Sharing
import TermGraph.Proofs.Signatures
import TermGraph.Proofs.Substitution
import TermGraph.Proofs.Subterms
import TermGraph.Proofs.Traversing
import TermGraph.Proofs.Variables
import TermGraph.Proofs.Vocabulary
import TermGraph.Proofs.WellFormed
import TermGraph.Results.Basic
import TermGraph.Results.Solutions
import TermGraph.Signature
import TermGraph.Term
import TermGraph.Text.CharacterClass
import TermGraph.Text.Quoted
import TermGraph.TypedVar
