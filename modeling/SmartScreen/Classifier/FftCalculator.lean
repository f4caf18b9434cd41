/-
  The Fourier transforms of an event (`FastFourierTransformCalculator.h`).

  The calculator keeps its buffers between calls.  Those for the data and for the
  configuration of kiss_fft only grow; the window is as long as the last data.

  * A call ends with a fault where a loop leaves a vector, where an `int` cannot
    count the data, or where kiss_fft has not enough memory.
  * `reusable_iff`: which sequences of calls one calculator answers like new ones.
-/
import SmartScreen.Classifier.Arithmetic
import SmartScreen.Lib.Fallible
import SmartScreen.Stream.MetaData

namespace SmartScreen

open Fallible

/-! ## kiss_fft -/

structure KissFftCpx (F : Type) where
  r : F
  i : F
deriving DecidableEq

/-- `kiss_fft` for a number of points, from as many entries of the buffer. -/
structure KissFft (F : Type) where
  transform : List (KissFftCpx F) → List (KissFftCpx F)
  length_transform : ∀ points, (transform points).length = points.length

/-! ## The calculator -/

structure FftCalculator (F : Type) where
  kissFftBuffer : List (KissFftCpx F) := []
  blackmanHarrisBuffer : List F := []
  maxDataSize : ℕ := 0
  /-- the size of the memory for `kiss_fft_alloc` -/
  cfgBuffer : ℕ := 0

namespace FftCalculator

variable {F : Type}

section
variable [FloatMath F] (c : FftCalculator F)

/-- New entries of a resized vector are zero. -/
def setMaxDataSetSize (n : ℕ) : FftCalculator F :=
  { c with
    maxDataSize := n
    kissFftBuffer := c.kissFftBuffer.take n ++ List.replicate (n - c.kissFftBuffer.length) ⟨0, 0⟩
    cfgBuffer := 1024 + n * 8 }

/-- The two constructors. -/
def construct : Option ℕ → FftCalculator F
  | none => {}
  | some n => setMaxDataSetSize {} n

/-- What `kiss_fft_alloc` asks for: the state, and a factor for each further point. -/
def memNeeded (n : ℕ) : ℕ := 272 + 8 * n - 8

/-- Without memory there is no configuration, and kiss_fft dereferences it. -/
def initKissFFT (n : ℕ) : Except Fault (FftCalculator F) :=
  let c := if c.maxDataSize < n then c.setMaxDataSetSize n else c
  if n < 2 ^ 31 ∧ memNeeded n ≤ c.cfgBuffer then .ok c else .error .undefined

/-- The loop has an `int` counter. -/
def fillKissFFTBuffer (data : List F) : Except Fault (FftCalculator F) :=
  if min data.length c.kissFftBuffer.length < 2 ^ 31 then
    .ok { c with
      kissFftBuffer := (data.take c.kissFftBuffer.length).map (⟨·, 0⟩) ++
        c.kissFftBuffer.drop data.length }
  else .error .undefined

/-- One entry of the window. -/
def blackmanHarris (n idx : ℕ) : F :=
  let a (k : ℕ) : F := (k : F) / ((100000 : ℕ) : F)
  let cosine (k : ℕ) : F :=
    FloatMath.cos ((k : F) * FloatMath.pi * (idx : F) / ((n - 1 : ℕ) : F))
  a 35875 - a 48829 * cosine 2 + a 14128 * cosine 4 - a 1168 * cosine 6

def window (n : ℕ) : List F := (List.range n).map (blackmanHarris n)

def getBlackmanHarrisBuffer (n : ℕ) : FftCalculator F :=
  if c.blackmanHarrisBuffer.length = n then c else { c with blackmanHarrisBuffer := window n }

/-- The loop goes over the whole buffer, whatever the length of the window. -/
def multiplyKissFFTBufferWithBMH (n : ℕ) : Except Fault (FftCalculator F) :=
  let c := c.getBlackmanHarrisBuffer n
  if c.kissFftBuffer.length ≤ c.blackmanHarrisBuffer.length then
    .ok { c with
      kissFftBuffer := List.zipWith (fun w (cpx : KissFftCpx F) => ⟨w * cpx.r, cpx.i⟩)
        c.blackmanHarrisBuffer c.kissFftBuffer }
  else .error .undefined

def calculateFFT (fft : KissFft F) (data : List F) :
    Except Fault (FftCalculator F × List (KissFftCpx F)) := do
  let c ← c.initKissFFT data.length
  let c ← c.fillKissFFTBuffer data
  .ok (c, fft.transform (c.kissFftBuffer.take data.length))

def calculateFFTWithBlackmanHarris (fft : KissFft F) (data : List F) :
    Except Fault (FftCalculator F × List (KissFftCpx F)) := do
  let c ← c.initKissFFT data.length
  let c ← c.fillKissFFTBuffer data
  let c ← c.multiplyKissFFTBufferWithBMH data.length
  .ok (c, fft.transform (c.kissFftBuffer.take data.length))

end

/-! ## Calls -/

/-- A call with at least two points. -/
structure Call (F : Type) where
  data : List F
  windowed : Bool
  two_le : 2 ≤ data.length

variable [FloatMath F]

def perform (fft : KissFft F) (c : FftCalculator F) (call : Call F) :
    Except Fault (FftCalculator F × List (KissFftCpx F)) :=
  if call.windowed then c.calculateFFTWithBlackmanHarris fft call.data
  else c.calculateFFT fft call.data

/-- The results of calls, one after the other. -/
def performAll (fft : KissFft F) : FftCalculator F → List (Call F) →
    Except Fault (List (List (KissFftCpx F)))
  | _, [] => .ok []
  | c, call :: calls => do
    let (c, result) ← c.perform fft call
    let results ← performAll fft c calls
    .ok (result :: results)

/-- All calls stay inside the vectors, and give what a new calculator gives. -/
def Reusable (fft : KissFft F) (c : FftCalculator F) (calls : List (Call F)) : Prop :=
  ∃ results, performAll fft c calls = .ok results ∧
    List.Forall₂ (fun call result => (perform fft {} call).map Prod.snd = .ok result) calls results

/-! ## One call -/

/-- The buffer has the size that is noted, the memory suffices for it, and the window
    belongs to its length. -/
structure WellFormed (c : FftCalculator F) : Prop where
  buffer : c.kissFftBuffer.length = c.maxDataSize
  memory : c.maxDataSize = 0 ∨ memNeeded c.maxDataSize ≤ c.cfgBuffer
  window : c.blackmanHarrisBuffer = window c.blackmanHarrisBuffer.length

/-- The data as complex numbers, without and with the window. -/
def plain (data : List F) : List (KissFftCpx F) := data.map (⟨·, 0⟩)

def windowed (data : List F) : List (KissFftCpx F) :=
  List.zipWith (fun w x => ⟨w * x, 0⟩) (window data.length) data

section
variable {c c' : FftCalculator F} {n : ℕ} {data : List F}

@[simp] theorem length_window (n : ℕ) : (window n : List F).length = n := by
  rw [window, List.length_map, List.length_range]

theorem WellFormed.setMaxDataSetSize (h : WellFormed c) (n : ℕ) :
    WellFormed (c.setMaxDataSetSize n) := by
  refine ⟨?_, .inr ?_, h.window⟩
  · simp only [FftCalculator.setMaxDataSetSize, List.length_append, List.length_take,
      List.length_replicate]
    omega
  · simp only [FftCalculator.setMaxDataSetSize, memNeeded]
    omega

theorem WellFormed.construct (size : Option ℕ) : WellFormed (construct size : FftCalculator F) := by
  have hempty : WellFormed ({} : FftCalculator F) := ⟨rfl, .inl rfl, rfl⟩
  cases size with
  | none => exact hempty
  | some n => exact hempty.setMaxDataSetSize n

/-- After the initialisation the buffer has room for the data. -/
theorem initKissFFT_ok_iff (h : WellFormed c) (hn : 0 < n) :
    c.initKissFFT n = .ok c' ↔
      n < 2 ^ 31 ∧ c' = if c.maxDataSize < n then c.setMaxDataSetSize n else c := by
  have hmem : memNeeded n ≤
      (if c.maxDataSize < n then c.setMaxDataSetSize n else c).cfgBuffer := by
    split_ifs with hlt
    · exact ((h.setMaxDataSetSize n).memory).resolve_left hn.ne'
    · have := h.memory.resolve_left (by omega)
      rw [memNeeded] at this ⊢
      omega
  rw [initKissFFT]
  simp only [hmem, and_true]
  exact ite_eq_ok

theorem initKissFFT_ok (h : WellFormed c) (hok : c.initKissFFT n = .ok c') :
    WellFormed c' ∧ c'.maxDataSize = max c.maxDataSize n := by
  obtain ⟨-, rfl⟩ := ite_eq_ok.1 hok
  split_ifs with hlt
  · exact ⟨h.setMaxDataSetSize n, (max_eq_right hlt.le).symm⟩
  · exact ⟨h, (max_eq_left (not_lt.1 hlt)).symm⟩

/-- The data stand in front of what the buffer held. -/
theorem fillKissFFTBuffer_ok (h : WellFormed c) (hsmall : data.length < 2 ^ 31)
    (hroom : data.length ≤ c.maxDataSize) :
    ∃ rest, c.fillKissFFTBuffer data =
        .ok { c with kissFftBuffer := data.map (⟨·, 0⟩) ++ rest } ∧
      data.length + rest.length = c.maxDataSize := by
  refine ⟨c.kissFftBuffer.drop data.length, ?_, ?_⟩
  · rw [fillKissFFTBuffer, if_pos (by omega), List.take_of_length_le (by rwa [h.buffer])]
  · rw [List.length_drop, h.buffer]
    omega

/-- The window covers the buffer only if it is as long. -/
theorem multiply_ok_iff (h : WellFormed c) :
    c.multiplyKissFFTBufferWithBMH n = .ok c' ↔
      c.maxDataSize ≤ n ∧ c' = { c with
        blackmanHarrisBuffer := window n
        kissFftBuffer := List.zipWith (fun w (cpx : KissFftCpx F) => ⟨w * cpx.r, cpx.i⟩)
          (window n) c.kissFftBuffer } := by
  have hget : c.getBlackmanHarrisBuffer n = { c with blackmanHarrisBuffer := window n } := by
    rw [getBlackmanHarrisBuffer]
    split_ifs with hlen
    · rw [← hlen, ← h.window]
    · rfl
  rw [multiplyKissFFTBufferWithBMH, hget]
  simp only [length_window, h.buffer]
  exact ite_eq_ok

end

section
variable (fft : KissFft F) {c : FftCalculator F} {data : List F} (call : Call F)

/-- After the initialisation the data fill the buffer from the front, and leave the rest. -/
theorem filled_of_initKissFFT (h : WellFormed c) {c₁ : FftCalculator F}
    (hinit : c.initKissFFT data.length = .ok c₁) :
    ∃ rest, c₁.fillKissFFTBuffer data = .ok { c₁ with kissFftBuffer := plain data ++ rest } ∧
      WellFormed { c₁ with kissFftBuffer := plain data ++ rest } ∧
      data.length + rest.length = max c.maxDataSize data.length ∧
      c₁.maxDataSize = max c.maxDataSize data.length := by
  obtain ⟨h₁, hmax⟩ := initKissFFT_ok h hinit
  have hsmall : data.length < 2 ^ 31 := (ite_eq_ok.1 hinit).1.1
  obtain ⟨rest, hfill, hlen⟩ := fillKissFFTBuffer_ok h₁ hsmall (hmax ▸ le_max_right _ _)
  refine ⟨rest, hfill, ⟨?_, h₁.memory, h₁.window⟩, hlen.trans hmax, hmax⟩
  rw [List.length_append, plain, List.length_map, hlen]

/-- **Without a window** every call returns whose data an `int` counts. -/
theorem calculateFFT_ok (h : WellFormed c) (hpos : 0 < data.length)
    (hsmall : data.length < 2 ^ 31) :
    ∃ c', c.calculateFFT fft data = .ok (c', fft.transform (plain data)) ∧ WellFormed c' ∧
      c'.maxDataSize = max c.maxDataSize data.length := by
  obtain ⟨c₁, hinit⟩ : ∃ c₁, c.initKissFFT data.length = .ok c₁ :=
    ⟨_, (initKissFFT_ok_iff h hpos).2 ⟨hsmall, rfl⟩⟩
  obtain ⟨rest, hfill, hfilled, -, hmax⟩ := filled_of_initKissFFT h hinit
  refine ⟨_, ?_, hfilled, hmax⟩
  simp only [calculateFFT, bind_eq_ok]
  refine ⟨c₁, hinit, _, hfill, ?_⟩
  simp [plain]

theorem length_windowed (data : List F) : (windowed data).length = data.length := by
  simp [windowed]

/-- **With a window** the data must also fill the buffer. -/
theorem calculateFFTWithBlackmanHarris_ok (h : WellFormed c) (hpos : 0 < data.length)
    (hsmall : data.length < 2 ^ 31) (hfits : c.maxDataSize ≤ data.length) :
    ∃ c', c.calculateFFTWithBlackmanHarris fft data =
        .ok (c', fft.transform (windowed data)) ∧ WellFormed c' ∧
      c'.maxDataSize = data.length := by
  obtain ⟨c₁, hinit⟩ : ∃ c₁, c.initKissFFT data.length = .ok c₁ :=
    ⟨_, (initKissFFT_ok_iff h hpos).2 ⟨hsmall, rfl⟩⟩
  obtain ⟨rest, hfill, hfilled, hlen, hmax⟩ := filled_of_initKissFFT h hinit
  rw [max_eq_right hfits] at hlen hmax
  have hrest : rest = [] := List.eq_nil_of_length_eq_zero (by omega)
  subst hrest
  rw [List.append_nil] at hfill hfilled
  have hwindowed : windowed data = List.zipWith (fun w (cpx : KissFftCpx F) => ⟨w * cpx.r, cpx.i⟩)
      (window data.length) (plain data) := by
    rw [windowed, plain, List.zipWith_map_right]
  have hmultiply := (multiply_ok_iff hfilled).2 ⟨hmax.le, rfl⟩
  refine ⟨{ c₁ with
      blackmanHarrisBuffer := window data.length
      kissFftBuffer := windowed data }, ?_, ⟨?_, hfilled.memory, ?_⟩, hmax⟩
  · simp only [calculateFFTWithBlackmanHarris, bind_eq_ok]
    refine ⟨c₁, hinit, _, hfill, _, hmultiply, ?_⟩
    rw [← hwindowed, List.take_of_length_le (length_windowed data).le]
  · rw [length_windowed, hmax]
  · rw [length_window]

theorem small_of_calculateFFT {r : FftCalculator F × List (KissFftCpx F)}
    (hok : c.calculateFFT fft data = .ok r) : data.length < 2 ^ 31 := by
  simp only [calculateFFT, bind_eq_ok] at hok
  obtain ⟨c₁, hinit, -⟩ := hok
  exact (ite_eq_ok.1 hinit).1.1

/-- What a call with a window that returns has done. -/
theorem multiplied_of_calculate (h : WellFormed c) {r : FftCalculator F × List (KissFftCpx F)}
    (hok : c.calculateFFTWithBlackmanHarris fft data = .ok r) :
    ∃ c₂, WellFormed c₂ ∧ c₂.maxDataSize = max c.maxDataSize data.length ∧
      c₂.multiplyKissFFTBufferWithBMH data.length = .ok r.1 ∧ data.length < 2 ^ 31 := by
  simp only [calculateFFTWithBlackmanHarris, bind_eq_ok] at hok
  obtain ⟨c₁, hinit, c₂, hfill, c₃, hmultiply, hr⟩ := hok
  cases hr
  obtain ⟨rest, hfill', hfilled, -, hmax⟩ := filled_of_initKissFFT h hinit
  rw [hfill'] at hfill
  cases hfill
  exact ⟨_, hfilled, hmax, hmultiply, (ite_eq_ok.1 hinit).1.1⟩

theorem fits_of_calculateFFTWithBlackmanHarris (h : WellFormed c)
    {r : FftCalculator F × List (KissFftCpx F)}
    (hok : c.calculateFFTWithBlackmanHarris fft data = .ok r) :
    data.length < 2 ^ 31 ∧ c.maxDataSize ≤ data.length := by
  obtain ⟨c₂, h₂, hmax, hmultiply, hsmall⟩ := multiplied_of_calculate fft h hok
  have hle := ((multiply_ok_iff h₂).1 hmultiply).1
  exact ⟨hsmall, (le_max_left _ _).trans (hmax ▸ hle)⟩

theorem WellFormed.calculate (h : WellFormed c) {r : FftCalculator F × List (KissFftCpx F)}
    (hok : c.calculateFFTWithBlackmanHarris fft data = .ok r) : WellFormed r.1 := by
  obtain ⟨c₂, h₂, -, hmultiply, -⟩ := multiplied_of_calculate fft h hok
  obtain ⟨hle, heq⟩ := (multiply_ok_iff h₂).1 hmultiply
  rw [heq]
  refine ⟨?_, h₂.memory, by rw [length_window]⟩
  rw [List.length_zipWith, length_window, h₂.buffer]
  exact min_eq_right hle

/-! ### Calls -/

/-- What a call returns if it returns. -/
def answer (call : Call F) : List (KissFftCpx F) :=
  fft.transform (if call.windowed then windowed call.data else plain call.data)

omit [FloatMath F] in
theorem Call.length_pos (call : Call F) : 0 < call.data.length :=
  Nat.zero_lt_of_lt call.two_le

/-- **A call returns** if an `int` counts its data and, with a window, they are not
    shorter than the buffer; the result does not depend on the calculator. -/
theorem perform_ok (h : WellFormed c) (hsmall : call.data.length < 2 ^ 31)
    (hfits : call.windowed → c.maxDataSize ≤ call.data.length) :
    ∃ c', c.perform fft call = .ok (c', answer fft call) ∧ WellFormed c' ∧
      c'.maxDataSize = max c.maxDataSize call.data.length := by
  rw [perform, answer]
  cases hwindowed : call.windowed with
  | false => exact calculateFFT_ok fft h call.length_pos hsmall
  | true =>
    obtain ⟨c', hok, h', hmax⟩ :=
      calculateFFTWithBlackmanHarris_ok fft h call.length_pos hsmall (hfits hwindowed)
    exact ⟨c', hok, h', by rw [hmax, max_eq_right (hfits hwindowed)]⟩

/-- No other call returns. -/
theorem fits_of_perform (h : WellFormed c) {r : FftCalculator F × List (KissFftCpx F)}
    (hok : c.perform fft call = .ok r) :
    call.data.length < 2 ^ 31 ∧ (call.windowed → c.maxDataSize ≤ call.data.length) := by
  rw [perform] at hok
  split_ifs at hok with hwindowed
  · obtain ⟨hsmall, hfits⟩ := fits_of_calculateFFTWithBlackmanHarris fft h hok
    exact ⟨hsmall, fun _ => hfits⟩
  · exact ⟨small_of_calculateFFT fft hok, fun hw => absurd hw hwindowed⟩

/-- A new calculator answers every call whose data an `int` counts. -/
theorem perform_new (hsmall : call.data.length < 2 ^ 31) :
    (perform fft {} call).map Prod.snd = .ok (answer fft call) := by
  obtain ⟨c', hok, -⟩ := perform_ok fft call (WellFormed.construct none) hsmall
    fun _ => Nat.zero_le _
  rw [show perform fft {} call = .ok (c', answer fft call) from hok]
  rfl

end

/-! ## Sequences of calls -/

section
variable {fft : KissFft F} {c : FftCalculator F} {calls : List (Call F)}

/-- **One call more**: it has to return, and the buffer is as large as its data then. -/
theorem reusable_cons_iff (h : WellFormed c) (call : Call F) :
    Reusable fft c (call :: calls) ↔
      (call.data.length < 2 ^ 31 ∧ (call.windowed → c.maxDataSize ≤ call.data.length)) ∧
      ∃ c', WellFormed c' ∧ c'.maxDataSize = max c.maxDataSize call.data.length ∧
        c.perform fft call = .ok (c', answer fft call) ∧ Reusable fft c' calls := by
  constructor
  · rintro ⟨results, hrun, hall⟩
    simp only [performAll, bind_eq_ok] at hrun
    obtain ⟨⟨c', result⟩, hcall, results', hcalls, hresults⟩ := hrun
    cases hresults
    have hfits := fits_of_perform fft call h hcall
    obtain ⟨c'', hok, h', hmax⟩ := perform_ok fft call h hfits.1 hfits.2
    rw [hok] at hcall
    cases hcall
    exact ⟨hfits, c', h', hmax, hok, results', hcalls, (List.forall₂_cons.1 hall).2⟩
  · rintro ⟨⟨hsmall, -⟩, c', -, -, hok, results, hrun, hall⟩
    refine ⟨answer fft call :: results, ?_, .cons (perform_new fft call hsmall) hall⟩
    simp only [performAll, hok, bind_eq_ok]
    exact ⟨_, rfl, results, hrun, rfl⟩

/-- **All calls**, from any state of the calculator. -/
theorem reusable_iff_of_wellFormed (h : WellFormed c) :
    Reusable fft c calls ↔
      (∀ call ∈ calls, call.data.length < 2 ^ 31 ∧
        (call.windowed → c.maxDataSize ≤ call.data.length)) ∧
      calls.Pairwise fun earlier later =>
        later.windowed → earlier.data.length ≤ later.data.length := by
  induction calls generalizing c with
  | nil => simp [Reusable, performAll]
  | cons call calls ih =>
    rw [reusable_cons_iff h, List.forall_mem_cons, List.pairwise_cons]
    constructor
    · rintro ⟨hfits, c', h', hmax, -, hcalls⟩
      obtain ⟨hlater, hpairs⟩ := (ih h').1 hcalls
      rw [hmax] at hlater
      refine ⟨⟨hfits, fun x hx => ?_⟩, fun x hx => ?_, hpairs⟩
      · exact ⟨(hlater x hx).1, fun hw => (le_max_left _ _).trans ((hlater x hx).2 hw)⟩
      · exact fun hw => (le_max_right _ _).trans ((hlater x hx).2 hw)
    · rintro ⟨⟨hfits, hlater⟩, hpair, hpairs⟩
      obtain ⟨c', hok, h', hmax⟩ := perform_ok fft call h hfits.1 hfits.2
      refine ⟨hfits, c', h', hmax, hok, (ih h').2 ⟨fun x hx => ?_, hpairs⟩⟩
      refine ⟨(hlater x hx).1, fun hw => ?_⟩
      rw [hmax]
      exact max_le ((hlater x hx).2 hw) (hpair x hx hw)

end

/-- **The calculator is reusable** exactly if an `int` counts the data of all calls,
    and no call with a window has fewer points than it was constructed for, or than
    an earlier call had. -/
theorem reusable_iff (fft : KissFft F) (size : Option ℕ) (calls : List (Call F)) :
    Reusable fft (construct size) calls ↔
      (∀ call ∈ calls, call.data.length < 2 ^ 31 ∧
        (call.windowed → size.getD 0 ≤ call.data.length)) ∧
      calls.Pairwise fun earlier later =>
        later.windowed → earlier.data.length ≤ later.data.length := by
  have hsize : (construct size : FftCalculator F).maxDataSize = size.getD 0 := by
    cases size <;> rfl
  rw [reusable_iff_of_wellFormed (WellFormed.construct size), hsize]

/-- A call with `n` zeros and the window. -/
def zerosCall (n : ℕ) (h : 2 ≤ n) : Call F :=
  ⟨List.replicate n 0, true, by rwa [List.length_replicate]⟩

/-- Four points and then three: the loop passes the end of the window. -/
theorem shorter_data_overrun :
    ¬ ∃ fft : KissFft ℝ, Reusable fft (construct none)
      [zerosCall 4 (by decide), zerosCall 3 (by decide)] := by
  rintro ⟨fft, results, hrun, -⟩
  obtain ⟨c, hfirst, hc, hmax⟩ := perform_ok fft (zerosCall 4 (by decide))
    (WellFormed.construct none) (by decide) fun _ => Nat.zero_le _
  simp only [performAll, hfirst, bind_eq_ok] at hrun
  obtain ⟨_, hfirst', _, ⟨_, hsecond, -⟩, -⟩ := hrun
  cases hfirst'
  have hfits := (fits_of_perform fft _ hc hsecond).2 rfl
  rw [hmax] at hfits
  exact absurd hfits (by decide)

end FftCalculator

end SmartScreen
