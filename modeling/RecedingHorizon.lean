import RecedingHorizon.Controller.Operation
import RecedingHorizon.Fault.Raised
import RecedingHorizon.Model.LinearQuadratic
import RecedingHorizon.Model.Pendulum
import RecedingHorizon.Model.Samples
import RecedingHorizon.Tensor.Vector
import RecedingHorizon.Proofs.Nodes
import RecedingHorizon.Proofs.Real
import RecedingHorizon.Proofs.Matrices
import RecedingHorizon.Proofs.Numbers
import RecedingHorizon.Proofs.Responses
import RecedingHorizon.Proofs.Shooting
import RecedingHorizon.Proofs.Condensing
import RecedingHorizon.Proofs.Stage
import RecedingHorizon.Proofs.Lagrangian
import RecedingHorizon.Proofs.Affine
import RecedingHorizon.Proofs.Regulator
import RecedingHorizon.Proofs.Optimality
import RecedingHorizon.Proofs.Agreement
import RecedingHorizon.Proofs.Spreading
import RecedingHorizon.Proofs.Linked
import RecedingHorizon.Proofs.RoundTrip
import RecedingHorizon.Proofs.Krylov.Frame
import RecedingHorizon.Proofs.Krylov.Solve
import RecedingHorizon.Proofs.Continuation
import RecedingHorizon.Proofs.Reachable
import RecedingHorizon.Proofs.Controller
import RecedingHorizon.Proofs.Decay
import RecedingHorizon.Proofs.ClosedLoop
import RecedingHorizon.Proofs.FirstState
import RecedingHorizon.Proofs.TwoRuns
import RecedingHorizon.Proofs.Rows
import RecedingHorizon.Proofs.DerivedRows
import RecedingHorizon.Proofs.Start
import RecedingHorizon.Proofs.Interrupted
import RecedingHorizon.Proofs.Detected
import RecedingHorizon.Proofs.Accepted
import RecedingHorizon.Proofs.Consistent
import RecedingHorizon.Proofs.Equilibrium
import RecedingHorizon.Proofs.Krylov.Divisors
import RecedingHorizon.Proofs.Refusals
import RecedingHorizon.Proofs.Krylov.Reported
import RecedingHorizon.Proofs.Krylov.Minimal
import RecedingHorizon.Proofs.Krylov.Termination
import RecedingHorizon.Proofs.Krylov.Convergence
import RecedingHorizon.Proofs.Hessian
import RecedingHorizon.Proofs.OddSymmetry
import RecedingHorizon.Proofs.TimeShift
import RecedingHorizon.Proofs.InertControllers
import RecedingHorizon.Proofs.Krylov.Growth
import RecedingHorizon.Proofs.Krylov.Solved
import RecedingHorizon.Proofs.Krylov.Reused
import RecedingHorizon.Proofs.Krylov.Truncated
import RecedingHorizon.Proofs.Krylov.Rescaled
import RecedingHorizon.Proofs.Krylov.Orthogonalized
import RecedingHorizon.Proofs.Krylov.LeastSquares
import RecedingHorizon.Proofs.Certified
import RecedingHorizon.Proofs.NewtonSystem
import RecedingHorizon.Proofs.Stricter
import RecedingHorizon.Proofs.Descent
import RecedingHorizon.Proofs.Tails
import RecedingHorizon.Proofs.Gradients
import RecedingHorizon.Proofs.Pendulum
