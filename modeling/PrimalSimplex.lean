import PrimalSimplex.Scalar.Float
import PrimalSimplex.Solver.Basic
import PrimalSimplex.Proofs.Program.Feasible
import PrimalSimplex.Proofs.Matrix.Entries
import PrimalSimplex.Proofs.Matrix.Without
import PrimalSimplex.Proofs.Tableau.Entries
import PrimalSimplex.Proofs.Tableau.Assignment
import PrimalSimplex.Proofs.Tableau.Canonical
import PrimalSimplex.Proofs.Tableau.Pivot
import PrimalSimplex.Proofs.Tableau.Reduction
import PrimalSimplex.Proofs.Tableau.Choice
import PrimalSimplex.Proofs.Tableau.BasicFeasible
import PrimalSimplex.Proofs.Column.Layout
import PrimalSimplex.Proofs.Program.Placement
import PrimalSimplex.Proofs.Tableau.Initial
import PrimalSimplex.Proofs.Tableau.Encoding
import PrimalSimplex.Proofs.Tableau.Faithful
import PrimalSimplex.Proofs.Solver.Run
import PrimalSimplex.Proofs.Tableau.Region
import PrimalSimplex.Proofs.Tableau.SecondPhase
import PrimalSimplex.Proofs.Solver.Outcome
import PrimalSimplex.Proofs.Solver.PhaseChange
import PrimalSimplex.Proofs.Tableau.Evolution
import PrimalSimplex.Proofs.Tableau.Consistency
import PrimalSimplex.Proofs.Solver.Visited
import PrimalSimplex.Tableau.Check
import PrimalSimplex.Proofs.Solver.InOrder
import PrimalSimplex.Proofs.Solver.Tolerance
import PrimalSimplex.Proofs.Tableau.Determined
import PrimalSimplex.Proofs.Tableau.ObjectiveRows
import PrimalSimplex.Proofs.Tableau.StandardForm
import PrimalSimplex.Proofs.Solver.Iterations
import PrimalSimplex.Proofs.Solver.Limit
import PrimalSimplex.Proofs.Solver.Session
import PrimalSimplex.Proofs.Tableau.Likeness
import PrimalSimplex.Proofs.Solver.Lockstep
import PrimalSimplex.Proofs.Solver.Rephrasing
import PrimalSimplex.Proofs.Solver.StoredCosts
import PrimalSimplex.Proofs.Solver.FirstPhase
import PrimalSimplex.Proofs.Solver.ExplicitOffset
import PrimalSimplex.Proofs.Matrix.RowOperations
import PrimalSimplex.Proofs.Tableau.Assembly
import PrimalSimplex.Proofs.Solver.Safety
import PrimalSimplex.Proofs.Tableau.LeavingRow
import PrimalSimplex.Proofs.Tableau.ColumnCounts
import PrimalSimplex.Proofs.Solver.FirstPhaseUnbounded
import PrimalSimplex.Proofs.Tableau.AuxiliaryCost
import PrimalSimplex.Proofs.Solver.Pivots
import PrimalSimplex.Proofs.Tableau.Ascent
import PrimalSimplex.Proofs.Solver.Ascent
import PrimalSimplex.Proofs.Tableau.Removal
import PrimalSimplex.Proofs.Tableau.Projection
import PrimalSimplex.Proofs.Tableau.Searches
import PrimalSimplex.Proofs.Solver.EnteringColumn
import PrimalSimplex.Proofs.Solver.Malformed
import PrimalSimplex.Proofs.Tableau.RoundRobin
import PrimalSimplex.Proofs.Program.Sides
import PrimalSimplex.Proofs.Solver.NegatedConstraints
import PrimalSimplex.Proofs.Tableau.InPlace
import PrimalSimplex.Proofs.Solver.Replay
import PrimalSimplex.Proofs.Column.Place
import PrimalSimplex.Proofs.Column.Names
import PrimalSimplex.Proofs.Tableau.Positions
import PrimalSimplex.Proofs.Tableau.Headings
import PrimalSimplex.Proofs.Solver.ColumnNames
