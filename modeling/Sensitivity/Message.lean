import Sensitivity.Error
import Sensitivity.Numeric.Text
import Sensitivity.Text.Quoted

/-! The wording of errors. -/
namespace Sensitivity

open Numeric

def bracketed (items : List String) : String := "[" ++ ", ".intercalate items ++ "]"

def shapeText (shape : List Nat) : String := bracketed (shape.map toString)

def Single.message (x : Single) : String := messageStyle.text x

def Attribute.message : Attribute Single → String
  | .int v => "Int(" ++ toString v ++ ")"
  | .float v => "Float(" ++ attributeStyle.text v ++ ")"
  | .text v => "String(" ++ Text.quoted v ++ ")"
  | .ints vs => "Ints(" ++ bracketed (vs.map toString) ++ ")"
  | .floats vs => "Floats(" ++ bracketed (vs.map attributeStyle.text) ++ ")"

def Unsupported.message : Unsupported → String
  | .unknownKind kind layer => s!"'{kind}' (layer '{layer}')"
  | .compositeBlock => "inception blocks are composite and have no single transform"
  | .innerSoftmax path => s!"softmax layer '{path}' must be the last top-level layer"

def zerosText (zeros : Nat) : String := s!"containing zero ({zeros} element(s))"

def OutsideDomain.message : OutsideDomain Single → String
  | .reciprocal zeros => "reciprocal of an interval " ++ zerosText zeros
  | .division zeros => "division by an interval " ++ zerosText zeros
  | .wholePower exponent zeros => s!"x^{exponent} on an interval " ++ zerosText zeros
  | .realPower exponent needsPositive smallest =>
    "x^" ++ exponent.message ++ " needs a " ++
      (if needsPositive then "positive" else "non-negative") ++
      " base, smallest lower bound is " ++ smallest.message
  | .responseNorm offset alpha beta =>
    "LRN needs k > 0, alpha >= 0, beta >= 0 (got k=" ++ offset.message ++ ", alpha=" ++
      alpha.message ++ ", beta=" ++ beta.message ++ ")"
  | .dropRate rate => "dropout probability must be in [0, 1), got " ++ rate.message

def BadInterval.message : BadInterval Single → String
  | .nan count => s!"{count} element(s) have a NaN bound"
  | .inverted count => s!"{count} element(s) have lower > upper"
  | .inputRange lower upper => "input range [" ++ lower.message ++ ", " ++ upper.message ++ "]"

def BadConfig.message : BadConfig Single → String
  | .unknownScore name => s!"unknown score '{name}' (expected max-abs, upper or width)"
  | .fraction value => "fraction must be in [0, 1], got " ++ value.message
  | .contractionRank rank => s!"dot needs a rank-1 or rank-2 weight, got rank {rank}"
  | .axis a r => s!"axis {a} out of range for rank {r}"
  | .slice start stop a extent =>
    s!"slice {start}..{stop} out of range for axis {a} of size {extent}"
  | .index i a extent => s!"index {i} out of range for axis {a} of size {extent}"
  | .emptyConcat => "concat of zero intervals"
  | .emptyStack => "stack of zero intervals"
  | .hugeConcat => "concat: ShapeError/Overflow: arithmetic overflow"
  | .hugeStack => "stack: ShapeError/Overflow: arithmetic overflow"
  | .zeroStride => "convolution stride must be positive"
  | .channelGroups channels groups =>
    s!"{channels} output channels cannot be split into {groups} group(s)"
  | .poolExtent size stride => s!"pool size {size} and stride {stride} must be positive"
  | .poolPadding padding size => s!"padding {padding} must be smaller than the pool size {size}"
  | .zeroLocalRange => "LRN local range must be positive"
  | .softmaxShape => "softmax needs at least one axis"
  | .softmaxScalar => "softmax of a scalar"
  | .imageShape user shape =>
    s!"{user} expects a (channels, height, width) input, got " ++ shapeText shape
  | .activationRank =>
    "expected a rank-3 array: ShapeError/IncompatibleShape: incompatible shapes"
  | .window size padded => s!"window {size} larger than padded extent {padded}"
  | .noLayers network => s!"network '{network}' has no layers"
  | .noBranches => "inception block without branches"
  | .intAttribute layer key got =>
    s!"layer '{layer}': attribute '{key}' must be a non-negative integer, got " ++ got.message
  | .floatAttribute layer key got =>
    s!"layer '{layer}': attribute '{key}' must be a number, got " ++ got.message
  | .noPoolSize layer => s!"layer '{layer}' needs a pool_size"
  | .weightIndex i layer => s!"weight index {i} out of range in layer {layer}"

def Stage.name : Stage → String
  | .unvisited => "Unvisited"
  | .activationSet => "ActivationSet"
  | .derivativeSet => "DerivativeSet"

def BadOrder.message : BadOrder → String
  | .unknownNode id => s!"unknown node #{id}"
  | .stage id found expected => s!"node #{id} is " ++ found.name ++ ", expected " ++ expected.name
  | .noActivation => "activation not set"
  | .noDerivative => "derivative not set"

def Malformed.message : Malformed → String
  | .unreadable => "not a network description"
  | .valueCount shape expected got =>
    "tensor of shape " ++ shapeText shape ++ s!" needs {expected} values, got {got}"
  | .hugeTensor => "tensor data: ShapeError/Overflow: arithmetic overflow"
  | .rank layer what r shape =>
    s!"layer '{layer}': {what} must have rank {r}, got shape " ++ shapeText shape
  | .noWeights layer => s!"layer '{layer}' has no weights"

def Error.message : Error Single → String
  | .shapeMismatch expected got =>
    "Shape mismatch: expected " ++ shapeText expected ++ ", got " ++ shapeText got
  | .unsupported cause => "Unsupported layer kind: " ++ cause.message
  | .outsideDomain cause => "Domain violation: " ++ cause.message
  | .badInterval cause => "Invalid interval: " ++ cause.message
  | .badConfig cause => "Invalid configuration: " ++ cause.message
  | .badOrder cause => "Propagation order violated: " ++ cause.message
  | .inLayer index path source => s!"Layer {index} ({path}) failed: " ++ source.message
  | .malformed cause => "Malformed network description: " ++ cause.message
  | .outsideStorage => "index out of bounds"

end Sensitivity
