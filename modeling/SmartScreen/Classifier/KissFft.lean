/-
  The fast Fourier transform (`kiss_fft.c`, with floating point numbers).

  * A stage of radix `p` makes `p` transforms of every `p`-th point, and then combines
    them in place, with a function of its own for the radixes up to 5.
  * `Fout` is what is between the pointer and the end of the stage's output; a pointer to
    the input is the number of points before it.
  * `factors` are the radixes, each followed by the length of the transforms of its stage.
  * A function has no value where the code reads before or after an array that it is given.
-/
import SmartScreen.Classifier.FftCalculator

namespace SmartScreen

variable {F : Type}

/-- What the twiddle factors are made of. -/
class Trigonometry (F : Type) where
  pi : F
  cos : F → F
  sin : F → F

noncomputable instance : Trigonometry ℝ := ⟨Real.pi, Real.cos, Real.sin⟩

/-- `kiss_fft_state` -/
structure KissFftState (F : Type) where
  nfft : ℕ
  inverse : Bool
  factors : List ℕ
  twiddles : List (KissFftCpx F)
deriving DecidableEq

/-! ## Complex numbers -/

namespace KissFftCpx

variable [Field F]

instance : Zero (KissFftCpx F) := ⟨0, 0⟩

/-- `C_MUL` -/
def mul (a b : KissFftCpx F) : KissFftCpx F := ⟨a.r * b.r - a.i * b.i, a.r * b.i + a.i * b.r⟩

/-- `C_ADD` and `C_ADDTO` -/
def add (a b : KissFftCpx F) : KissFftCpx F := ⟨a.r + b.r, a.i + b.i⟩

/-- `C_SUB` -/
def sub (a b : KissFftCpx F) : KissFftCpx F := ⟨a.r - b.r, a.i - b.i⟩

/-- `C_MULBYSCALAR` -/
def mulByScalar (c : KissFftCpx F) (s : F) : KissFftCpx F := ⟨c.r * s, c.i * s⟩

end KissFftCpx

/-- `HALF_OF` -/
def halfOf [Field F] (x : F) : F := x * (1 / (2 : ℕ))

namespace KissFftState

open KissFftCpx

variable [Field F] (st : KissFftState F)

/-! ## Combining the transforms of a stage -/

def twiddle (i : ℕ) : KissFftCpx F := st.twiddles.getD i 0

def bfly2 (fstride m : ℕ) (Fout : List (KissFftCpx F)) : List (KissFftCpx F) :=
  (List.range m).foldl (fun Fout u =>
    let t := (Fout.getD (u + m) 0).mul (st.twiddle (u * fstride))
    let Fout2 := (Fout.getD u 0).sub t
    let Fout0 := (Fout.getD u 0).add t
    (Fout.set (u + m) Fout2).set u Fout0) Fout

def bfly4 (fstride m : ℕ) (Fout : List (KissFftCpx F)) : List (KissFftCpx F) :=
  (List.range m).foldl (fun Fout u =>
    let scratch0 := (Fout.getD (u + m) 0).mul (st.twiddle (u * fstride))
    let scratch1 := (Fout.getD (u + 2 * m) 0).mul (st.twiddle (u * (fstride * 2)))
    let scratch2 := (Fout.getD (u + 3 * m) 0).mul (st.twiddle (u * (fstride * 3)))
    let scratch5 := (Fout.getD u 0).sub scratch1
    let Fout0 := (Fout.getD u 0).add scratch1
    let scratch3 := scratch0.add scratch2
    let scratch4 := scratch0.sub scratch2
    let Foutm2 := Fout0.sub scratch3
    let Fout0 := Fout0.add scratch3
    let minus : KissFftCpx F := ⟨scratch5.r - scratch4.i, scratch5.i + scratch4.r⟩
    let plus : KissFftCpx F := ⟨scratch5.r + scratch4.i, scratch5.i - scratch4.r⟩
    let Foutm := if st.inverse then minus else plus
    let Foutm3 := if st.inverse then plus else minus
    (((Fout.set (u + 2 * m) Foutm2).set u Fout0).set (u + m) Foutm).set (u + 3 * m) Foutm3) Fout

def bfly3 (fstride m : ℕ) (Fout : List (KissFftCpx F)) : List (KissFftCpx F) :=
  let epi3 := st.twiddle (fstride * m)
  (List.range m).foldl (fun Fout u =>
    let scratch1 := (Fout.getD (u + m) 0).mul (st.twiddle (u * fstride))
    let scratch2 := (Fout.getD (u + 2 * m) 0).mul (st.twiddle (u * (fstride * 2)))
    let scratch3 := scratch1.add scratch2
    let scratch0 := scratch1.sub scratch2
    let Foutm : KissFftCpx F := ⟨(Fout.getD u 0).r - halfOf scratch3.r,
      (Fout.getD u 0).i - halfOf scratch3.i⟩
    let scratch0 := scratch0.mulByScalar epi3.i
    let Fout0 := (Fout.getD u 0).add scratch3
    let Foutm2 : KissFftCpx F := ⟨Foutm.r + scratch0.i, Foutm.i - scratch0.r⟩
    let Foutm : KissFftCpx F := ⟨Foutm.r - scratch0.i, Foutm.i + scratch0.r⟩
    ((Fout.set u Fout0).set (u + 2 * m) Foutm2).set (u + m) Foutm) Fout

def bfly5 (fstride m : ℕ) (Fout : List (KissFftCpx F)) : List (KissFftCpx F) :=
  let ya := st.twiddle (fstride * m)
  let yb := st.twiddle (fstride * 2 * m)
  (List.range m).foldl (fun Fout u =>
    let scratch0 := Fout.getD u 0
    let scratch1 := (Fout.getD (u + m) 0).mul (st.twiddle (u * fstride))
    let scratch2 := (Fout.getD (u + 2 * m) 0).mul (st.twiddle (2 * u * fstride))
    let scratch3 := (Fout.getD (u + 3 * m) 0).mul (st.twiddle (3 * u * fstride))
    let scratch4 := (Fout.getD (u + 4 * m) 0).mul (st.twiddle (4 * u * fstride))
    let scratch7 := scratch1.add scratch4
    let scratch10 := scratch1.sub scratch4
    let scratch8 := scratch2.add scratch3
    let scratch9 := scratch2.sub scratch3
    let Fout0 : KissFftCpx F := ⟨scratch0.r + (scratch7.r + scratch8.r),
      scratch0.i + (scratch7.i + scratch8.i)⟩
    let scratch5 : KissFftCpx F := ⟨scratch0.r + scratch7.r * ya.r + scratch8.r * yb.r,
      scratch0.i + scratch7.i * ya.r + scratch8.i * yb.r⟩
    let scratch6 : KissFftCpx F := ⟨scratch10.i * ya.i + scratch9.i * yb.i,
      -(scratch10.r * ya.i) - scratch9.r * yb.i⟩
    let scratch11 : KissFftCpx F := ⟨scratch0.r + scratch7.r * yb.r + scratch8.r * ya.r,
      scratch0.i + scratch7.i * yb.r + scratch8.i * ya.r⟩
    let scratch12 : KissFftCpx F := ⟨-(scratch10.i * yb.i) + scratch9.i * ya.i,
      scratch10.r * yb.i - scratch9.r * ya.i⟩
    ((((Fout.set u Fout0).set (u + m) (scratch5.sub scratch6)).set (u + 4 * m)
      (scratch5.add scratch6)).set (u + 2 * m) (scratch11.add scratch12)).set (u + 3 * m)
      (scratch11.sub scratch12)) Fout

/-- One more point of `scratch`, with the index of the twiddle factor before it. -/
def addPoint (fstride k : ℕ) (sum : KissFftCpx F × ℕ) (point : KissFftCpx F) :
    Option (KissFftCpx F × ℕ) :=
  let twidx := sum.2 + fstride * k
  -- `twidx` is an `int`: from 2^31 on it is negative, and the factor before the array.
  if 2 ^ 31 ≤ twidx then none
  else
    let twidx := if st.nfft ≤ twidx then twidx - st.nfft else twidx
    some (sum.1.add (point.mul (st.twiddle twidx)), twidx)

/-- The value for the index `k`, from the points that are left in `scratch`. -/
def genericPoint (fstride k : ℕ) : List (KissFftCpx F) → Option (KissFftCpx F)
  | [] => none
  | first :: scratch => (scratch.foldlM (st.addPoint fstride k) (first, 0)).map Prod.fst

def bflyGeneric (fstride m p : ℕ) (Fout : List (KissFftCpx F)) : Option (List (KissFftCpx F)) :=
  (List.range m).foldlM (fun Fout u =>
    let scratch := (List.range p).map fun q1 => Fout.getD (u + q1 * m) 0
    (List.range p).foldlM (fun Fout q1 =>
      (st.genericPoint fstride (u + q1 * m) scratch).map (Fout.set (u + q1 * m))) Fout) Fout

/-- Recombine the `p` smaller transforms. -/
def bfly (fstride m p : ℕ) (Fout : List (KissFftCpx F)) : Option (List (KissFftCpx F)) :=
  match p with
  | 2 => some (st.bfly2 fstride m Fout)
  | 3 => some (st.bfly3 fstride m Fout)
  | 4 => some (st.bfly4 fstride m Fout)
  | 5 => some (st.bfly5 fstride m Fout)
  | p => st.bflyGeneric fstride m p Fout

/-! ## The transform -/

/-- The output of the stages that are left, for the points `f`, `f + fstride * inStride`
    and so on of `fin`. -/
def work (fin : List (KissFftCpx F)) (inStride : ℕ) :
    List ℕ → ℕ → ℕ → Option (List (KissFftCpx F))
  | p :: m :: factors, f, fstride =>
    let Fout :=
      if m = 1 then (List.range p).mapM fun k => fin[f + k * (fstride * inStride)]?
      else ((List.range p).mapM fun k =>
        work fin inStride factors (f + k * (fstride * inStride)) (fstride * p)).map List.flatten
    Fout.bind (st.bfly fstride m p)
  | _, _, _ => none

/-- The next radix to try: 4, 2, 3, and then the odd numbers. -/
def nextRadix (floorSqrt n p : ℕ) : ℕ :=
  let p := if p = 4 then 2 else if p = 2 then 3 else p + 2
  if floorSqrt < p then n else p

/-- The inner loop of `kf_factor`. -/
def findRadix (floorSqrt n : ℕ) : ℕ → ℕ → Option ℕ
  | 0, _ => none
  | fuel + 1, p =>
    if n % p = 0 then some p else findRadix floorSqrt n fuel (nextRadix floorSqrt n p)

/-- The outer loop of `kf_factor`. -/
def factorLoop (floorSqrt : ℕ) : ℕ → ℕ → ℕ → Option (List ℕ)
  | 0, _, _ => none
  | fuel + 1, n, p =>
    (findRadix floorSqrt n (floorSqrt + 4) p).bind fun p =>
      let n := n / p
      if 1 < n then (factorLoop floorSqrt fuel n p).map ([p, n] ++ ·) else some [p, n]

def factor (n : ℕ) : Option (List ℕ) := factorLoop n.sqrt (n + 1) n 4

/-- `kiss_fft_alloc`, when there is enough memory. -/
def alloc [Trigonometry F] (nfft : ℕ) (inverseFft : Bool) : Option (KissFftState F) :=
  (factor nfft).map fun factors =>
    { nfft
      inverse := inverseFft
      factors
      twiddles := (List.range nfft).map fun (i : ℕ) =>
        let phase : F := -(2 : ℕ) * Trigonometry.pi * i / nfft
        let phase := if inverseFft then phase * -1 else phase
        ⟨Trigonometry.cos phase, Trigonometry.sin phase⟩ }

/-- `kiss_fft_stride` -/
def transformStride (fin : List (KissFftCpx F)) (inStride : ℕ) : Option (List (KissFftCpx F)) :=
  st.work fin inStride st.factors 0 1

/-- `kiss_fft` -/
def transform (fin : List (KissFftCpx F)) : Option (List (KissFftCpx F)) :=
  st.transformStride fin 1

end KissFftState

end SmartScreen
