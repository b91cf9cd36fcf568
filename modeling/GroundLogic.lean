import GroundLogic.Goal.Meaning
import GroundLogic.Goal.Visit
import GroundLogic.Session.Run
import GroundLogic.Proofs.Environment.Union
import GroundLogic.Proofs.Environment.Merging
import GroundLogic.Proofs.Pattern.Unification
import GroundLogic.Proofs.Rule.Arguments
import GroundLogic.Proofs.Renaming.Syntax
import GroundLogic.Proofs.Renaming.Body
import GroundLogic.Proofs.Renaming.Substitution
import GroundLogic.Proofs.Search.Steps
import GroundLogic.Proofs.Renaming.Searches
import GroundLogic.Proofs.Solutions.Listing
import GroundLogic.Proofs.Goal.Reach
import GroundLogic.Proofs.Renaming.Meaning
import GroundLogic.Proofs.Solutions.Meaning
import GroundLogic.Proofs.Search.Ends
import GroundLogic.Proofs.Solutions.Substitution
import GroundLogic.Proofs.Solutions.Narrowing
import GroundLogic.Proofs.Search.Laziness
import GroundLogic.Proofs.Renaming.Answers
import GroundLogic.Proofs.Session.Interleaving
import GroundLogic.Proofs.Goal.Arities
import GroundLogic.Proofs.Goal.Consistency
import GroundLogic.Proofs.State.Chronicle
import GroundLogic.Proofs.Search.Entering
import GroundLogic.Proofs.Solutions.Confinement
import GroundLogic.Proofs.Solutions.Unfolding
import GroundLogic.Proofs.Session.Freshness
import GroundLogic.Proofs.State.Growth
import GroundLogic.Proofs.State.Storage
import GroundLogic.Proofs.State.Requests
import GroundLogic.Proofs.Rule.Alike
import GroundLogic.Proofs.Solutions.Batches
import GroundLogic.Proofs.Solutions.Bounds
import GroundLogic.Proofs.Solutions.Endings
import GroundLogic.Proofs.Solutions.Rearrangement
import GroundLogic.Proofs.Solutions.Histories
import GroundLogic.Proofs.Solutions.Specialization
import GroundLogic.Proofs.Search.Isolation
import GroundLogic.Proofs.Search.Wildcards
import GroundLogic.Proofs.Closure.Paths
import GroundLogic.Proofs.Closure.Round
import GroundLogic.Proofs.Closure.Answers
import GroundLogic.Proofs.Goal.Lengths
import GroundLogic.Proofs.Search.Lengths
import GroundLogic.Proofs.Session.Growth
import GroundLogic.Proofs.Session.Lengths
import GroundLogic.Proofs.Search.Regrouping
import GroundLogic.Proofs.Solutions.Facts
import GroundLogic.Proofs.Solutions.Joining
import GroundLogic.Proofs.Solutions.Beginnings
import GroundLogic.Proofs.Solutions.Reconciling
import GroundLogic.Proofs.Solutions.Selections
import GroundLogic.Proofs.State.Charges
import GroundLogic.Proofs.Search.Charges
import GroundLogic.Proofs.Session.Charges
import GroundLogic.Proofs.Session.Fusion
import GroundLogic.Proofs.Search.Endlessness
import GroundLogic.Proofs.Session.Endlessness
import GroundLogic.Proofs.Tuple.JsonForm
import GroundLogic.Proofs.Text.Outline
import GroundLogic.Proofs.Goal.Printing
import GroundLogic.Proofs.State.Ledger
