import Sensitivity.Numeral

/-! What can go wrong. An error is its cause, kept apart from its wording; the
values that a wording shows are part of the cause. -/
namespace Sensitivity

inductive Attribute (α : Type) where
  | int (value : Int)
  | float (value : α)
  | text (value : String)
  | ints (values : List Int)
  | floats (values : List α)
deriving DecidableEq

inductive Unsupported where
  | unknownKind (kind layer : String)
  | compositeBlock
  | innerSoftmax (path : String)
deriving DecidableEq

inductive OutsideDomain (α : Type) where
  | reciprocal (zeros : Nat)
  | division (zeros : Nat)
  | wholePower (exponent : Int) (zeros : Nat)
  | realPower (exponent : α) (needsPositive : Bool) (smallest : α)
  | responseNorm (offset alpha beta : α)
  | dropRate (rate : α)
deriving DecidableEq

inductive BadInterval (α : Type) where
  | nan (count : Nat)
  | inverted (count : Nat)
  | inputRange (lower upper : α)
deriving DecidableEq

inductive BadConfig (α : Type) where
  | unknownScore (name : String)
  | fraction (value : α)
  | contractionRank (rank : Nat)
  | axis (axis rank : Nat)
  | slice (start stop axis extent : Nat)
  | index (index axis extent : Nat)
  | emptyConcat
  | emptyStack
  | hugeConcat
  | hugeStack
  | zeroStride
  | channelGroups (channels groups : Nat)
  | poolExtent (size stride : Nat)
  | poolPadding (padding size : Nat)
  | zeroLocalRange
  | softmaxShape
  | softmaxScalar
  | imageShape (user : String) (shape : List Nat)
  | activationRank
  | window (window padded : Nat)
  | noLayers (network : String)
  | noBranches
  | intAttribute (layer key : String) (got : Attribute α)
  | floatAttribute (layer key : String) (got : Attribute α)
  | noPoolSize (layer : String)
  | weightIndex (index layer : Nat)
deriving DecidableEq

inductive Stage where
  | unvisited
  | activationSet
  | derivativeSet
deriving DecidableEq

inductive BadOrder where
  | unknownNode (id : Nat)
  | stage (id : Nat) (found expected : Stage)
  | noActivation
  | noDerivative
deriving DecidableEq

inductive Malformed where
  | unreadable
  | valueCount (shape : List Nat) (expected got : Nat)
  | hugeTensor
  | rank (layer what : String) (rank : Nat) (shape : List Nat)
  | noWeights (layer : String)
deriving DecidableEq

inductive Error (α : Type) where
  | shapeMismatch (expected got : List Nat)
  | unsupported (cause : Unsupported)
  | outsideDomain (cause : OutsideDomain α)
  | badInterval (cause : BadInterval α)
  | badConfig (cause : BadConfig α)
  | badOrder (cause : BadOrder)
  | inLayer (index : Nat) (path : String) (source : Error α)
  | malformed (cause : Malformed)
  /-- A stored bound was read beyond its extents, which ends the program. -/
  | outsideStorage
deriving DecidableEq

namespace Error

variable {α β : Type}

/-- Names the layer in which an error arose; a layer already named stays. -/
def atLayer (index : Nat) (path : String) : Error α → Error α
  | .inLayer i p source => .inLayer i p source
  | e => .inLayer index path e

def root : Error α → Error α
  | .inLayer _ _ source => source.root
  | e => e

def within (index : Nat) (path : String) (r : Except (Error α) β) : Except (Error α) β :=
  r.mapError (atLayer index path)

end Error
end Sensitivity
