import PottsOracle.Arith.Binary64
import PottsOracle.Arith.HalfEven
import PottsOracle.Arith.Scalar
import PottsOracle.Arith.Word
import PottsOracle.Command.Arguments
import PottsOracle.Command.Path
import PottsOracle.Command.Run
import PottsOracle.Dataset.Defect
import PottsOracle.Dataset.Sample
import PottsOracle.Dataset.Validation
import PottsOracle.Decimal.Shortest
import PottsOracle.Decimal.Style
import PottsOracle.Digest.Sha256
import PottsOracle.Experiment.Event
import PottsOracle.Experiment.Run
import PottsOracle.Feature.Given
import PottsOracle.Feature.GivenJoint
import PottsOracle.Feature.Joint
import PottsOracle.Feature.Layout
import PottsOracle.Feature.Vector
import PottsOracle.Flow.Cut
import PottsOracle.Flow.Grid
import PottsOracle.Flow.Route
import PottsOracle.Graph.EdgeList
import PottsOracle.Graph.Given
import PottsOracle.Graph.JointVector
import PottsOracle.Graph.LabeledGraph
import PottsOracle.Input.Block
import PottsOracle.Input.Form
import PottsOracle.Input.Number
import PottsOracle.Input.Stretch
import PottsOracle.Json.Display
import PottsOracle.Json.Printer
import PottsOracle.Json.Reader
import PottsOracle.Json.Token
import PottsOracle.Json.Value
import PottsOracle.Labeling
import PottsOracle.Main
import PottsOracle.Oracle.Operand
import PottsOracle.Oracle.Problem
import PottsOracle.Oracle.Query
import PottsOracle.Oracle.Separation
import PottsOracle.Place
import PottsOracle.Potts.Given
import PottsOracle.Potts.Model
import PottsOracle.Potts.Network
import PottsOracle.Potts.Solver
import PottsOracle.Proofs.Arith.Exact
import PottsOracle.Proofs.Arith.Ordered
import PottsOracle.Proofs.Arith.Rounded
import PottsOracle.Proofs.Arith.Rounding
import PottsOracle.Proofs.Arith.Unpacked
import PottsOracle.Proofs.Arith.Values
import PottsOracle.Proofs.Dataset.Accepted
import PottsOracle.Proofs.Dataset.Complete
import PottsOracle.Proofs.Dataset.Fitting
import PottsOracle.Proofs.Dataset.Judged
import PottsOracle.Proofs.Dataset.ToSparse
import PottsOracle.Proofs.Dataset.WellFormed
import PottsOracle.Proofs.Decimal.ReadBack
import PottsOracle.Proofs.Decimal.Shortest
import PottsOracle.Proofs.Decimal.ToFloat
import PottsOracle.Proofs.Experiment.Representation
import PottsOracle.Proofs.Experiment.Summary
import PottsOracle.Proofs.Feature.GivenJoint
import PottsOracle.Proofs.Feature.JointEntries
import PottsOracle.Proofs.Feature.JointScore
import PottsOracle.Proofs.Feature.LeastLayout
import PottsOracle.Proofs.Feature.Misfit
import PottsOracle.Proofs.Feature.Terms
import PottsOracle.Proofs.Feature.Updates
import PottsOracle.Proofs.Flow.Cut
import PottsOracle.Proofs.Flow.Raised
import PottsOracle.Proofs.Flow.Route
import PottsOracle.Proofs.Graph.Aligned
import PottsOracle.Proofs.Graph.CompressedRows
import PottsOracle.Proofs.Graph.EdgeList
import PottsOracle.Proofs.Graph.Neighbourhood
import PottsOracle.Proofs.Input.Nesting
import PottsOracle.Proofs.Json.Lexeme
import PottsOracle.Proofs.Json.RoundTrip
import PottsOracle.Proofs.Json.Row
import PottsOracle.Proofs.Json.Sorted
import PottsOracle.Proofs.Json.Spelling
import PottsOracle.Proofs.Oracle.Answers
import PottsOracle.Proofs.Oracle.Failure
import PottsOracle.Proofs.Oracle.Grown
import PottsOracle.Proofs.Oracle.JointSums
import PottsOracle.Proofs.Oracle.JointVector
import PottsOracle.Proofs.Oracle.MostViolated
import PottsOracle.Proofs.Oracle.Objective
import PottsOracle.Proofs.Oracle.Ready
import PottsOracle.Proofs.Oracle.Relabel
import PottsOracle.Proofs.Oracle.Representation
import PottsOracle.Proofs.Oracle.Rescaled
import PottsOracle.Proofs.Oracle.ZeroLoss
import PottsOracle.Proofs.Oracle.ZeroWeights
import PottsOracle.Proofs.Potts.Arcs
import PottsOracle.Proofs.Potts.Components
import PottsOracle.Proofs.Potts.GreatestOptimum
import PottsOracle.Proofs.Potts.Links
import PottsOracle.Proofs.Potts.Monotone
import PottsOracle.Proofs.Potts.Overflow
import PottsOracle.Proofs.Potts.Quantised
import PottsOracle.Proofs.Potts.Raised
import PottsOracle.Proofs.Potts.Relabel
import PottsOracle.Proofs.Potts.Rescaled
import PottsOracle.Proofs.Potts.Rounding
import PottsOracle.Proofs.Potts.Score
import PottsOracle.Proofs.Potts.Search
import PottsOracle.Proofs.Rearranged
import PottsOracle.Proofs.Settings.Accepted
import PottsOracle.Proofs.Settings.Canonical
import PottsOracle.Proofs.Settings.Range
import PottsOracle.Proofs.Settings.Reworded
import PottsOracle.Proofs.Settings.RoundTrip
import PottsOracle.Proofs.Synthetic.Generated
import PottsOracle.Proofs.Synthetic.Layout
import PottsOracle.Proofs.Synthetic.Pairs
import PottsOracle.Proofs.Synthetic.Representation
import PottsOracle.Proofs.Synthetic.Valid
import PottsOracle.Proofs.Text.Digits
import PottsOracle.Proofs.Traverse
import PottsOracle.Settings.Basic
import PottsOracle.Settings.Document
import PottsOracle.Settings.Error
import PottsOracle.Settings.Number
import PottsOracle.Synthetic.Draws
import PottsOracle.Synthetic.Generator
import PottsOracle.Synthetic.Given
import PottsOracle.Synthetic.GivenEdges
import PottsOracle.Text.Basic
import PottsOracle.Text.Digit
import PottsOracle.Text.Printable
import PottsOracle.Text.Quoted
