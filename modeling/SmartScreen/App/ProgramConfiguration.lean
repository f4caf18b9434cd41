/-
  The configuration file (`ProgramConfiguration`).

  `ini_parse` calls a handler for every entry.  It answers with a negative number if
  the file cannot be opened, and else with the line of the first entry that the handler
  has refused, or zero.  `load` looks at the sign only.

  * `get_load`: what is loaded are the last values that could be read.
  * `load_some`: a file that can be opened is always accepted.
  * `load_as_written_iff`: when what has been accepted is what is written.
-/
import SmartScreen.Lib.InputStream
import SmartScreen.Stream.MetaData

namespace SmartScreen

open Format

structure ProgramConfiguration where
  sampleRate : ℕ := 12000
  frequency : ℕ := 60
  voltage : ℚ := 230
  dataSetStartTime : String := ""
  maxDataPointsInQueue : ℕ := 16000
  dataPointsStoredOfEvent : Int32 := 0
  dataPointsStoredBeforeEvent : Int32 := 0
deriving DecidableEq

namespace ProgramConfiguration

def toPowerMetaData (c : ProgramConfiguration) : PowerMetaData where
  sampleRate := c.sampleRate
  frequency := c.frequency
  voltage := c.voltage
  maxDataPointsInQueue := c.maxDataPointsInQueue
  dataPointsStoredOfEvent := c.dataPointsStoredOfEvent
  dataPointsStoredBeforeEvent := c.dataPointsStoredBeforeEvent

/-! ## The settings -/

/-- The attributes, in the order in which the handler tries them. -/
inductive Setting where
  | sampleRate
  | frequency
  | voltage
  | dataSetStartTime
  | maxDataPointsInQueue
  | dataPointsStoredOfEvent
  | dataPointsStoredBeforeEvent
deriving DecidableEq

namespace Setting

def all : List Setting :=
  [sampleRate, frequency, voltage, dataSetStartTime, maxDataPointsInQueue,
    dataPointsStoredOfEvent, dataPointsStoredBeforeEvent]

/-- The type of the attribute. -/
def Value : Setting → Type
  | sampleRate | frequency | maxDataPointsInQueue => ℕ
  | voltage => ℚ
  | dataSetStartTime => String
  | dataPointsStoredOfEvent | dataPointsStoredBeforeEvent => Int32

def expectedSection : Setting → String
  | sampleRate | frequency | voltage | dataSetStartTime => "main"
  | maxDataPointsInQueue | dataPointsStoredOfEvent | dataPointsStoredBeforeEvent => "data"

def expectedName : Setting → String
  | sampleRate => "sample_rate"
  | frequency => "frequency"
  | voltage => "voltage"
  | dataSetStartTime => "data_set_start_time"
  | maxDataPointsInQueue => "max_data_points_in_queue"
  | dataPointsStoredOfEvent => "data_points_stored_of_event"
  | dataPointsStoredBeforeEvent => "data_points_stored_before_event"

def get : (k : Setting) → ProgramConfiguration → k.Value
  | sampleRate, c => c.sampleRate
  | frequency, c => c.frequency
  | voltage, c => c.voltage
  | dataSetStartTime, c => c.dataSetStartTime
  | maxDataPointsInQueue, c => c.maxDataPointsInQueue
  | dataPointsStoredOfEvent, c => c.dataPointsStoredOfEvent
  | dataPointsStoredBeforeEvent, c => c.dataPointsStoredBeforeEvent

def set : (k : Setting) → k.Value → ProgramConfiguration → ProgramConfiguration
  | sampleRate, b, c => { c with sampleRate := b }
  | frequency, b, c => { c with frequency := b }
  | voltage, b, c => { c with voltage := b }
  | dataSetStartTime, b, c => { c with dataSetStartTime := b }
  | maxDataPointsInQueue, b, c => { c with maxDataPointsInQueue := b }
  | dataPointsStoredOfEvent, b, c => { c with dataPointsStoredOfEvent := b }
  | dataPointsStoredBeforeEvent, b, c => { c with dataPointsStoredBeforeEvent := b }

/-- The type `int`. -/
def int : Format Int32 := whole (-(2 : ℤ) ^ 31) (2 ^ 31) Int32.ofInt

/-- `lexical_cast` for numbers; `none` is an exception. -/
def lexicalCast {β : Type} (f : Format β) (str : String) : Option β :=
  (({ rest := str.toList } : InputStream).extract f).1

/-- `lexical_cast` to the type of the attribute. -/
def cast (strtof : Bool → ℚ≥0 → Option ℚ) : (k : Setting) → String → Option k.Value
  | sampleRate | frequency | maxDataPointsInQueue => lexicalCast (unsigned 64)
  | voltage => lexicalCast (real strtof)
  | dataSetStartTime => some
  | dataPointsStoredOfEvent | dataPointsStoredBeforeEvent => lexicalCast int

/-- A text that is a number, in full. -/
def readInFull {β : Type} (f : Format β) (str : String) : Option β :=
  if (f.read str.toList).2 = [] then (f.read str.toList).1 else none

/-- A text that is a value of the attribute: a number in the range of its type, or any
    text. -/
def inRange (strtof : Bool → ℚ≥0 → Option ℚ) : (k : Setting) → String → Option k.Value
  | sampleRate | frequency | maxDataPointsInQueue => readInFull (whole 0 (2 ^ 64) Int.toNat)
  | voltage => readInFull (real strtof)
  | dataSetStartTime => some
  | dataPointsStoredOfEvent | dataPointsStoredBeforeEvent => readInFull int

end Setting

/-! ## Reading the file -/

/-- An entry of an ini file, and the number of its line. -/
structure IniEntry where
  line : ℕ
  sectionName : String
  name : String
  value : String
deriving DecidableEq

/-- `ini_parse` on an open file: the lines of the entries are counted from 1. -/
def iniParseEntries {σ : Type} (handler : σ → IniEntry → σ × Bool) :
    List IniEntry → σ → ℕ → σ × ℕ
  | [], user, error => (user, error)
  | e :: es, user, error =>
    let (user, taken) := handler user e
    iniParseEntries handler es user (if !taken && error == 0 then e.line else error)

/-- `ini_parse`; there are no entries if the file cannot be opened. -/
def iniParse {σ : Type} (handler : σ → IniEntry → σ × Bool) :
    Option (List IniEntry) → σ → σ × ℤ
  | none, user => (user, -1)
  | some entries, user =>
    let (user, error) := iniParseEntries handler entries user 0
    (user, error)

section
variable (strtof : Bool → ℚ≥0 → Option ℚ)

/-- Whether this is the attribute that is expected; `none` is an exception. -/
def mapSetting (k : Setting) (e : IniEntry) (c : ProgramConfiguration) :
    Option (ProgramConfiguration × Bool) :=
  if e.name ≠ k.expectedName then some (c, false)
  else if e.sectionName ≠ k.expectedSection then some (c, false)
  else (k.cast strtof e.value).map fun b => (k.set b c, true)

/-- `success |= mapSetting(…)` for the attributes. -/
def mapSettings (e : IniEntry) :
    List Setting → ProgramConfiguration → Bool → ProgramConfiguration × Bool
  | [], c, success => (c, success)
  | k :: ks, c, success =>
    match mapSetting strtof k e c with
    | some (c, taken) => mapSettings e ks c (success || taken)
    | none => (c, false)

def handler (c : ProgramConfiguration) (e : IniEntry) : ProgramConfiguration × Bool :=
  mapSettings strtof e Setting.all c false

def load (file : Option (List IniEntry)) (c : ProgramConfiguration) :
    ProgramConfiguration × Bool :=
  let (c, result) := iniParse (handler strtof) file c
  if result < 0 then (c, false) else (c, true)

end

/-! ## What the file says -/

def IniEntry.IsFor (e : IniEntry) (k : Setting) : Prop :=
  e.sectionName = k.expectedSection ∧ e.name = k.expectedName

instance (e : IniEntry) (k : Setting) : Decidable (e.IsFor k) :=
  inferInstanceAs (Decidable (_ ∧ _))

section
variable (strtof : Bool → ℚ≥0 → Option ℚ)

/-- A known key in its section, with a value of its type. -/
def IniEntry.Valid (e : IniEntry) : Prop := ∃ k, e.IsFor k ∧ (k.inRange strtof e.value).isSome

/-- The value of the last entry for an attribute, or its default. -/
def lastValue (entries : List IniEntry) (k : Setting) (c : ProgramConfiguration) : k.Value :=
  (((entries.filter fun e => e.IsFor k).getLast?).bind fun e => k.inRange strtof e.value).getD
    (k.get c)

/-- What the handler reads from an entry for an attribute. -/
def IniEntry.read (k : Setting) (e : IniEntry) : Option k.Value :=
  if e.IsFor k then k.cast strtof e.value else none

/-- The last value that the handler reads for an attribute, or its default. -/
def lastRead (entries : List IniEntry) (k : Setting) (c : ProgramConfiguration) : k.Value :=
  (entries.filterMap (IniEntry.read strtof k)).getLast?.getD (k.get c)

/-- The file is accepted iff it can be opened and all its entries are valid, and if it
    is, every attribute has the value of its last entry. -/
def LoadsAsWritten (file : Option (List IniEntry)) : Prop :=
  ((load strtof file {}).2 = true ↔
      ∃ entries, file = some entries ∧ ∀ e ∈ entries, e.Valid strtof) ∧
    ∀ entries, file = some entries → (load strtof file {}).2 = true →
      ∀ k : Setting, k.get (load strtof file {}).1 = lastValue strtof entries k {}

end

/-! ## The attributes -/

namespace Setting

@[simp] theorem get_set_self (k : Setting) (b : k.Value) (c : ProgramConfiguration) :
    k.get (k.set b c) = b := by
  cases k <;> rfl

theorem get_set_of_ne {k k' : Setting} (h : k ≠ k') (b : k'.Value) (c : ProgramConfiguration) :
    k.get (k'.set b c) = k.get c := by
  cases k <;> cases k' <;> first | rfl | exact absurd rfl h

/-- The names of the keys are different. -/
theorem expectedName_inj {k k' : Setting} (h : k.expectedName = k'.expectedName) : k = k' := by
  revert h
  cases k <;> cases k' <;> decide

theorem mem_all (k : Setting) : k ∈ all := by cases k <;> decide

theorem nodup_all : all.Nodup := by decide

theorem lexicalCast_of_readInFull {β : Type} {f : Format β} {str : String} {b : β}
    (h : readInFull f str = some b) : lexicalCast f str = some b := by
  rw [readInFull] at h
  split_ifs at h with hrest
  rw [lexicalCast, InputStream.extract_of_read (Prod.ext h hrest)]

/-- A number in the range of `unsigned long` is read as it is. -/
theorem lexicalCast_unsigned {str : String} {n : ℕ}
    (h : readInFull (whole 0 (2 ^ 64) Int.toNat) str = some n) :
    lexicalCast (unsigned 64) str = some n := by
  refine lexicalCast_of_readInFull ?_
  rw [readInFull] at h
  split_ifs at h with hrest
  have hread : (unsigned 64).read str.toList = (some n, []) := by
    refine read_whole_of_le (Prod.ext h hrest) (by norm_num) le_rfl ?_
    intro z hz hz'
    simp only [Nat.cast_pow, Nat.cast_ofNat]
    rw [Int.emod_eq_of_lt hz hz']
  rw [readInFull, hread, if_pos rfl]

/-- **The number that is written** is the number that is read. -/
theorem cast_of_inRange {strtof : Bool → ℚ≥0 → Option ℚ} {k : Setting} {str : String} {b : k.Value}
    (h : k.inRange strtof str = some b) : k.cast strtof str = some b := by
  cases k with
  | sampleRate | frequency | maxDataPointsInQueue => exact lexicalCast_unsigned h
  | dataSetStartTime => exact h
  | voltage | dataPointsStoredOfEvent | dataPointsStoredBeforeEvent =>
    exact lexicalCast_of_readInFull h

end Setting

/-! ## The handler -/

section
variable {strtof : Bool → ℚ≥0 → Option ℚ} {e : IniEntry} {k : Setting}

theorem IniEntry.IsFor.unique {k' : Setting} (h : e.IsFor k) (h' : e.IsFor k') : k = k' :=
  Setting.expectedName_inj (h.2.symm.trans h'.2)

theorem mapSetting_of_ne {k' : Setting} (h : e.IsFor k) (hne : k' ≠ k)
    (c : ProgramConfiguration) : mapSetting strtof k' e c = some (c, false) := by
  rw [mapSetting, if_pos]
  intro hname
  exact hne (Setting.expectedName_inj (hname.symm.trans h.2))

theorem mapSettings_of_notMem (h : e.IsFor k) {ks : List Setting} (hk : k ∉ ks)
    (c : ProgramConfiguration) (success : Bool) :
    mapSettings strtof e ks c success = (c, success) := by
  induction ks generalizing success with
  | nil => rfl
  | cons k' ks ih =>
    rw [List.mem_cons, not_or] at hk
    rw [mapSettings, mapSetting_of_ne h (Ne.symm hk.1)]
    simp only [Bool.or_false, ih hk.2]

/-- The attribute of the entry decides. -/
theorem mapSettings_of_mem (h : e.IsFor k) {ks : List Setting} (hks : ks.Nodup) (hk : k ∈ ks)
    (c : ProgramConfiguration) (success : Bool) :
    mapSettings strtof e ks c success =
      ((k.cast strtof e.value).map fun b => (k.set b c, true)).getD (c, false) := by
  induction ks generalizing success with
  | nil => cases hk
  | cons k' ks ih =>
    rw [List.nodup_cons] at hks
    rw [mapSettings]
    rcases eq_or_ne k' k with rfl | hne
    · rw [mapSetting, if_neg (not_not.2 h.2), if_neg (not_not.2 h.1)]
      cases k'.cast strtof e.value with
      | none => rfl
      | some b => simp [mapSettings_of_notMem h hks.1]
    · rw [mapSetting_of_ne h hne]
      simp only [Bool.or_false, ih hks.2 (List.mem_of_ne_of_mem (Ne.symm hne) hk)]

theorem mapSettings_of_unknown (h : ∀ k, ¬ e.IsFor k) (ks : List Setting)
    (c : ProgramConfiguration) : mapSettings strtof e ks c false = (c, false) := by
  induction ks with
  | nil => rfl
  | cons k ks ih =>
    have hmap : mapSetting strtof k e c = some (c, false) := by
      rw [mapSetting]
      split_ifs with hname hsection
      · rfl
      · rfl
      · exact absurd ⟨not_not.1 hsection, not_not.1 hname⟩ (h k)
    rw [mapSettings, hmap]
    exact ih

/-- **The handler** stores what it reads, and nothing else. -/
theorem get_handler (k : Setting) (c : ProgramConfiguration) :
    k.get (handler strtof c e).1 = (e.read strtof k).getD (k.get c) := by
  rw [handler, IniEntry.read]
  by_cases hknown : ∃ k, e.IsFor k
  · obtain ⟨k', h⟩ := hknown
    rw [mapSettings_of_mem h Setting.nodup_all k'.mem_all]
    rcases eq_or_ne k k' with rfl | hne
    · rw [if_pos h]
      cases k.cast strtof e.value with
      | none => rfl
      | some b => exact k.get_set_self b c
    · rw [if_neg fun h' => hne (h'.unique h)]
      cases k'.cast strtof e.value with
      | none => rfl
      | some b => exact Setting.get_set_of_ne hne b c
  · rw [not_exists] at hknown
    rw [mapSettings_of_unknown hknown, if_neg (hknown k)]
    rfl

/-! ## The file -/

/-- **The entries** are stored one after the other. -/
theorem get_iniParseEntries (entries : List IniEntry) (c : ProgramConfiguration) (error : ℕ)
    (k : Setting) :
    k.get (iniParseEntries (handler strtof) entries c error).1 = lastRead strtof entries k c := by
  induction entries generalizing c error with
  | nil => rfl
  | cons e entries ih =>
    rw [iniParseEntries, ih, lastRead, lastRead, get_handler]
    cases hread : e.read strtof k with
    | none => rw [List.filterMap_cons_none hread, Option.getD_none]
    | some b =>
      rw [List.filterMap_cons_some hread, List.getLast?_cons]
      rfl

/-- Valid entries are read as they are written. -/
theorem lastRead_of_valid {entries : List IniEntry} (h : ∀ e ∈ entries, e.Valid strtof)
    (k : Setting) (c : ProgramConfiguration) :
    lastRead strtof entries k c = lastValue strtof entries k c := by
  have hread : entries.filterMap (IniEntry.read strtof k) =
      (entries.filter fun e => e.IsFor k).filterMap fun e => k.inRange strtof e.value := by
    rw [List.filterMap_filter]
    refine List.filterMap_congr ?_
    intro e he
    rw [IniEntry.read]
    by_cases hfor : e.IsFor k
    · obtain ⟨k', hfor', hsome⟩ := h e he
      obtain rfl := hfor.unique hfor'
      obtain ⟨b, hb⟩ := Option.isSome_iff_exists.1 hsome
      rw [if_pos hfor, if_pos (decide_eq_true hfor), Setting.cast_of_inRange hb, hb]
    · rw [if_neg hfor, if_neg (by simpa using hfor)]
  rw [lastRead, lastValue, hread]
  rcases List.eq_nil_or_concat' (entries.filter fun e => e.IsFor k) with hnil | ⟨init, last, hlast⟩
  · rw [hnil]
    rfl
  · -- the last entry for the attribute is valid
    have hmem : last ∈ entries.filter fun e => e.IsFor k :=
      hlast ▸ List.mem_append_right _ (List.mem_singleton.2 rfl)
    rw [List.mem_filter, decide_eq_true_eq] at hmem
    obtain ⟨k', hfor', hsome⟩ := h last hmem.1
    obtain rfl := hmem.2.unique hfor'
    obtain ⟨b, hb⟩ := Option.isSome_iff_exists.1 hsome
    have hvalue : [last].filterMap (fun e => k.inRange strtof e.value) = [b] := by
      rw [List.filterMap_cons, hb, List.filterMap_nil]
    rw [hlast, List.filterMap_append, hvalue, List.getLast?_concat, List.getLast?_concat,
      Option.bind_some, hb]

/-- **A file that can be opened is accepted**, whatever its entries are. -/
theorem load_some (entries : List IniEntry) (c : ProgramConfiguration) :
    load strtof (some entries) c =
      ((iniParseEntries (handler strtof) entries c 0).1, true) := by
  rw [load, iniParse]
  exact if_neg (not_lt.2 (Int.natCast_nonneg _))

theorem load_none (c : ProgramConfiguration) : load strtof none c = (c, false) := rfl

/-- **What is loaded** are the last values that could be read. -/
theorem get_load (entries : List IniEntry) (c : ProgramConfiguration) (k : Setting) :
    k.get (load strtof (some entries) c).1 = lastRead strtof entries k c := by
  rw [load_some, get_iniParseEntries]

end

/-- **When what is accepted is what is written**: the file cannot be opened, or all its
    entries are valid. -/
theorem load_as_written_iff (strtof : Bool → ℚ≥0 → Option ℚ) (file : Option (List IniEntry)) :
    LoadsAsWritten strtof file ↔
      ∀ entries, file = some entries → ∀ e ∈ entries, e.Valid strtof := by
  rw [LoadsAsWritten]
  cases file with
  | none => simp [load_none]
  | some entries =>
    rw [load_some]
    constructor
    · rintro ⟨hiff, -⟩ entries' ⟨⟩
      obtain ⟨_, ⟨⟩, hvalid⟩ := hiff.1 rfl
      exact hvalid
    · intro h
      have hvalid := h entries rfl
      refine ⟨iff_of_true rfl ⟨entries, rfl, hvalid⟩, ?_⟩
      rintro _ ⟨⟩ - k
      rw [get_iniParseEntries, lastRead_of_valid hvalid]

/-- A frequency that is no number. -/
theorem invalid_frequency_loads :
    ¬ LoadsAsWritten exactDecimal (some [⟨1, "main", "frequency", "abc"⟩]) := by
  rintro ⟨hiff, -⟩
  obtain ⟨entries, hfile, hvalid⟩ := hiff.1 (by rw [load_some])
  cases hfile
  obtain ⟨k, hfor, hsome⟩ := hvalid _ (List.mem_singleton.2 rfl)
  have hk : k = .frequency := Setting.expectedName_inj hfor.2.symm
  subst hk
  revert hsome
  decide +kernel

end ProgramConfiguration

end SmartScreen
