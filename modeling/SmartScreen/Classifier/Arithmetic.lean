/-
  The arithmetic of the features: further functions of the standard library, and
  real numbers as exact `float`s.
-/
import Mathlib.Analysis.SpecialFunctions.Complex.Arg
import Mathlib.Analysis.SpecialFunctions.Trigonometric.Basic
import SmartScreen.Detector.DataPoint

namespace SmartScreen

/-- What the code uses of `<cmath>` and `<complex>`. -/
class FloatMath (F : Type) extends FloatArith F where
  pi : F
  cos : F → F
  /-- the argument of a complex number with this real and this imaginary part -/
  arg : F → F → F
  /-- `roundf`, converted to `unsigned long` -/
  round : F → ℕ

/-- `std::abs` -/
def FloatArith.abs {F : Type} [FloatArith F] (x : F) : F := if x < 0 then -x else x

/-! ## Real numbers -/

noncomputable instance : ExactArith ℝ where
  sqrt := Real.sqrt

noncomputable instance : FloatMath ℝ where
  pi := Real.pi
  cos := Real.cos
  arg x y := Complex.arg ⟨x, y⟩
  round x := (⌊x + 1 / 2⌋).toNat

end SmartScreen
