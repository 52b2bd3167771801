import StackCalculator.CalcFunction
import StackCalculator.Session
import StackCalculator.Proofs.Runs
import StackCalculator.Proofs.Trace
import StackCalculator.Proofs.Depth
import StackCalculator.Proofs.Programs
import StackCalculator.Proofs.Frame
import StackCalculator.Proofs.Faults
import StackCalculator.Proofs.Limits
import StackCalculator.Proofs.Rules
import StackCalculator.Proofs.Signatures
import StackCalculator.Proofs.Failing
import StackCalculator.Proofs.Format
import StackCalculator.Proofs.WellFormed
import StackCalculator.Proofs.Growth
import StackCalculator.Proofs.Agreement
import StackCalculator.Proofs.TwoRuns
import StackCalculator.Proofs.Alternation
import StackCalculator.Proofs.Roots
import StackCalculator.Proofs.Literals
import StackCalculator.Proofs.Spelling
import StackCalculator.Proofs.Significance
import StackCalculator.Proofs.DoubleRounding
import StackCalculator.Proofs.DivisionPair
import StackCalculator.Proofs.Rotation
import StackCalculator.Proofs.Idioms
import StackCalculator.Proofs.Periods
import StackCalculator.Proofs.RoundingOrder
import StackCalculator.Proofs.UnitRoots
import StackCalculator.Proofs.ArcTangent
import StackCalculator.Proofs.Directions
import StackCalculator.Proofs.FullTurn
import StackCalculator.Proofs.Partition
import StackCalculator.Proofs.Domains
import StackCalculator.Proofs.Words
import StackCalculator.Proofs.Binades
import StackCalculator.Proofs.Calls
import StackCalculator.Proofs.Positions
import StackCalculator.Proofs.Reduction
import StackCalculator.Proofs.Bounds
