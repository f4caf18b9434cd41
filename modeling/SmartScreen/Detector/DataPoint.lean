/-
  Data points and the arithmetic on them (`DefaultDataPoint.h`,
  `BluedDataPoint.h`, `Algorithms::rootMeanSquareOfAmpere`).

  The code computes with `float`.  The model is over any type with the
  operations that the code uses and asks for no laws, so what is proved about it
  does not depend on rounding.
-/
import Mathlib.Data.Rat.Defs
import Mathlib.Algebra.Order.Field.Rat
import Mathlib.Algebra.Order.Ring.Rat
import Mathlib.Data.Nat.Sqrt
import Mathlib.Data.List.Sort

namespace SmartScreen

/-- The operations of `float` that the code uses. -/
class FloatArith (F : Type) extends Add F, Sub F, Mul F, Div F, Neg F, Zero F, NatCast F, LT F where
  sqrt : F → F
  decidableLT : DecidableLT F

instance FloatArith.instDecidableLT {F : Type} [FloatArith F] : DecidableLT F :=
  FloatArith.decidableLT

/-- Rational numbers, with a square root that is exact on squares of integers. -/
instance : FloatArith ℚ where
  sqrt q := (Nat.sqrt q.num.toNat : ℚ) / Nat.sqrt q.den
  decidableLT := inferInstance

/-- Exact arithmetic; nothing is asked of the square root. -/
class ExactArith (F : Type) extends Field F, LinearOrder F, IsStrictOrderedRing F where
  sqrt : F → F

instance (priority := low) ExactArith.instFloatArith {F : Type} [ExactArith F] : FloatArith F where
  sqrt := ExactArith.sqrt
  decidableLT := inferInstance

instance : ExactArith ℚ where
  sqrt := FloatArith.sqrt

/-! ## Data points -/

structure DefaultDataPoint (F : Type) where
  volts : F
  amps : F
deriving DecidableEq

structure BluedDataPoint (F : Type) where
  xValue : F
  currentA : F
  currentB : F
  voltageA : F
deriving DecidableEq

/-- What the code expects of a `DataPointType`. -/
class DataPoint (α : Type) (F : outParam Type) where
  voltage : α → F
  ampere : α → F

instance {F : Type} : DataPoint (DefaultDataPoint F) F where
  voltage := DefaultDataPoint.volts
  ampere := DefaultDataPoint.amps

instance {F : Type} [FloatArith F] : DataPoint (BluedDataPoint F) F where
  voltage d := -d.voltageA
  ampere := BluedDataPoint.currentB

namespace Algorithms

variable {α F : Type} [FloatArith F] [DataPoint α F]

def rootMeanSquare (xs : List F) : F :=
  FloatArith.sqrt (xs.foldl (fun result x => result + x * x) 0 / (xs.length : F))

def rootMeanSquareOfAmpere (dataPoints : List α) : F :=
  rootMeanSquare (dataPoints.map DataPoint.ampere)

end Algorithms

end SmartScreen
