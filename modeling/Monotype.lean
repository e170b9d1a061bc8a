import Monotype.Check.Session
import Monotype.Config.Document
import Monotype.Tree.Sketch
import Monotype.Proofs.Store.Solution
import Monotype.Proofs.Store.Compression
import Monotype.Proofs.Store.Closure
import Monotype.Proofs.Store.Ends
import Monotype.Proofs.Store.Renaming
import Monotype.Proofs.Store.Walks
import Monotype.Proofs.Unify.Rules
import Monotype.Proofs.Unify.Outcome
import Monotype.Proofs.Unify.Termination
import Monotype.Proofs.Unify.MostGeneral
import Monotype.Proofs.Unify.Failures
import Monotype.Proofs.Unify.Inversion
import Monotype.Proofs.Unify.Symmetry
import Monotype.Proofs.Unify.Leniency
import Monotype.Proofs.Plan
import Monotype.Proofs.Unify.Safety
import Monotype.Proofs.Check.Invariant
import Monotype.Proofs.Check.Safety
import Monotype.Proofs.Check.Trace
import Monotype.Proofs.Check.Sites
import Monotype.Proofs.Check.Hushed
import Monotype.Proofs.Check.Lockstep
import Monotype.Proofs.Check.Isolation
import Monotype.Proofs.Check.Settings
import Monotype.Proofs.Typing.Clean
import Monotype.Proofs.Typing.Sound
import Monotype.Proofs.Typing.Output
import Monotype.Proofs.Typing.Complete
import Monotype.Proofs.Typing.Principal
import Monotype.Proofs.Tree.Survey
import Monotype.Proofs.Tree.Resolver
import Monotype.Proofs.Check.Survey
import Monotype.Proofs.Check.Malformed
import Monotype.Proofs.Check.Coverage
import Monotype.Proofs.Check.Extension
import Monotype.Proofs.Check.Names
import Monotype.Proofs.Scopes
import Monotype.Proofs.Check.Order
import Monotype.Proofs.Check.Nominal
import Monotype.Proofs.Check.FullForm
import Monotype.Proofs.Unify.Ending
import Monotype.Proofs.Tree.Numbering
import Monotype.Proofs.Check.Constructors
import Monotype.Proofs.Tree.Confined
import Monotype.Proofs.Tree.Redeclaration
import Monotype.Proofs.Check.Frame
import Monotype.Proofs.Check.Exhaustive
import Monotype.Proofs.Check.SelfReference
import Monotype.Proofs.Check.Redeclaration
import Monotype.Proofs.Ty.Text
import Monotype.Proofs.Unify.Locality
import Monotype.Proofs.Unify.Sequence
import Monotype.Proofs.Unify.Consistency
import Monotype.Proofs.Unify.Accounting
