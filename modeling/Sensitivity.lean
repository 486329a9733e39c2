import Sensitivity.Main
import Sensitivity.Network.Same
import Sensitivity.Interval.Power
import Sensitivity.Interval.Stored
import Sensitivity.Proofs.Error
import Sensitivity.Proofs.Tensor
import Sensitivity.Proofs.Relation
import Sensitivity.Proofs.Interval
import Sensitivity.Proofs.Position
import Sensitivity.Proofs.Slice
import Sensitivity.Proofs.Join
import Sensitivity.Proofs.Maximum
import Sensitivity.Proofs.Shape.Layer
import Sensitivity.Proofs.Cell
import Sensitivity.Proofs.Plan
import Sensitivity.Proofs.Propagation
import Sensitivity.Proofs.Passage
import Sensitivity.Proofs.Shape.Network
import Sensitivity.Proofs.Shape.Build
import Sensitivity.Proofs.Window
import Sensitivity.Proofs.Shape.Run
import Sensitivity.Proofs.Shape.Passage
import Sensitivity.Proofs.Indicator
import Sensitivity.Proofs.Network
import Sensitivity.Proofs.Numeric.Rounding
import Sensitivity.Proofs.Numeric.Single
import Sensitivity.Proofs.Pruning
import Sensitivity.Proofs.Removal
import Sensitivity.Proofs.Count
import Sensitivity.Proofs.Ranking
import Sensitivity.Proofs.Sound.Bound
import Sensitivity.Proofs.Sound.Extremum
import Sensitivity.Proofs.Sound.Evaluation
import Sensitivity.Proofs.Sound.Norm
import Sensitivity.Proofs.Sound.Enclosure
import Sensitivity.Proofs.Sound.Dense
import Sensitivity.Proofs.Sound.Activation
import Sensitivity.Proofs.Sound.Convolution
import Sensitivity.Proofs.Sound.Pooling
import Sensitivity.Proofs.Sound.ResponseNorm
import Sensitivity.Proofs.Sound.Transform
import Sensitivity.Proofs.Sound.Network
import Sensitivity.Proofs.Sound.Run
import Sensitivity.Proofs.Sound.Weight
import Sensitivity.Proofs.Sound.Indicator
import Sensitivity.Proofs.Shape.Indicator
import Sensitivity.Proofs.Storage.Lookup
import Sensitivity.Proofs.Storage.Outcome
import Sensitivity.Proofs.Listing
import Sensitivity.Proofs.Block
import Sensitivity.Proofs.Site
import Sensitivity.Proofs.Fault
import Sensitivity.Proofs.Row.Layer
import Sensitivity.Proofs.Row.Run
import Sensitivity.Proofs.Exact.Bound
import Sensitivity.Proofs.Exact.ResponseNorm
import Sensitivity.Proofs.Exact.Sum
import Sensitivity.Proofs.Exact.Convolution
import Sensitivity.Proofs.Exact.Indicator
import Sensitivity.Proofs.Exact.Neighborhood
import Sensitivity.Proofs.Exact.Pooling
import Sensitivity.Proofs.Exact.Softmax
import Sensitivity.Proofs.Exact.Window
import Sensitivity.Proofs.Exact.Power
import Sensitivity.Proofs.Exact.Contraction
import Sensitivity.Proofs.Exact.Arithmetic
import Sensitivity.Proofs.Inclusion.Bound
import Sensitivity.Proofs.Inclusion.Interval
import Sensitivity.Proofs.Inclusion.Layer
import Sensitivity.Proofs.Inclusion.ResponseNorm
import Sensitivity.Proofs.Inclusion.Run
import Sensitivity.Proofs.Invariant.Run
import Sensitivity.Proofs.Invariant.Layer
import Sensitivity.Proofs.Invariant.Rounding
import Sensitivity.Proofs.Invariant.Point
import Sensitivity.Proofs.Description.Fields
import Sensitivity.Proofs.Description.Encoding
import Sensitivity.Proofs.Json.Number
import Sensitivity.Proofs.Json.Single
import Sensitivity.Proofs.Json.Text
import Sensitivity.Proofs.Json.Decode
import Sensitivity.Proofs.Description.Format
import Sensitivity.Proofs.Description.Reading
import Sensitivity.Proofs.Description.RoundTrip
import Sensitivity.Proofs.Extent
