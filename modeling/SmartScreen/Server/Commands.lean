/-
  The commands of the client (`AddLabelCommand`, `ReclassifyCommand`,
  `ShutdownCommand`, `client/main.cpp`) and how the message loop reads them.

  * A message is a `List Char`; every byte is a character.
  * The client passes a pointer to the text of a command and a length to the queue.
    The length may go beyond the text and its terminating zero: `Send.bytes` is
    then continued with whatever is in memory there.
-/
import SmartScreen.Lib.NumberText

namespace SmartScreen

open NumberText

/-- What the client and the server send and receive at most. -/
def maxMessageSize : ℕ := 200

/-- The exceptions of `deserialize`. -/
inductive DeserializeError where
  | int (value : ℤ)
  | conversion (error : ConversionError)
  | assertion
deriving DecidableEq

/-- `str.substr(0, prefix.size()) == prefix` -/
def hasPrefix (commandPrefix str : List Char) : Bool :=
  str.take commandPrefix.length == commandPrefix

/-! ## The commands -/

structure AddLabelCommand where
  eventId : UInt64
  label : Double
deriving DecidableEq

namespace AddLabelCommand

def commandPrefix : List Char := "add-label:".toList

def isAddLabelCommand (str : List Char) : Bool := hasPrefix commandPrefix str

def serialize (c : AddLabelCommand) : List Char :=
  commandPrefix ++ showUnsigned c.eventId ++ [','] ++ showDouble c.label

def deserialize (str : List Char) : Except DeserializeError AddLabelCommand :=
  if isAddLabelCommand str then
    let values := str.drop commandPrefix.length
    match values.findIdx? (· == ',') with
    | none => .error (.int (-1))
    | some commaPos =>
      if commaPos = values.length - 1 then .error (.int (-1))
      else
        match stoul (values.take commaPos), stod (values.drop (commaPos + 1)) with
        | .error e, _ => .error (.conversion e)
        | .ok _, .error e => .error (.conversion e)
        | .ok eventId, .ok label => .ok ⟨eventId, label⟩
  else .error .assertion

end AddLabelCommand

structure ReclassifyCommand where
  eventId : UInt64
deriving DecidableEq

namespace ReclassifyCommand

def commandPrefix : List Char := "reclassify:".toList

def isReclassifyCommand (str : List Char) : Bool := hasPrefix commandPrefix str

def serialize (c : ReclassifyCommand) : List Char := commandPrefix ++ showUnsigned c.eventId

def deserialize (str : List Char) : Except DeserializeError ReclassifyCommand :=
  if isReclassifyCommand str then
    match stoul (str.drop commandPrefix.length) with
    | .error e => .error (.conversion e)
    | .ok eventId => .ok ⟨eventId⟩
  else .error .assertion

end ReclassifyCommand

structure ShutdownCommand where
deriving DecidableEq

namespace ShutdownCommand

def commandPrefix : List Char := "shutdown:".toList

def isShutDownCommand (str : List Char) : Bool := hasPrefix commandPrefix str

def serialize (_ : ShutdownCommand) : List Char := commandPrefix

end ShutdownCommand

inductive Command where
  | addLabel (command : AddLabelCommand)
  | reclassify (command : ReclassifyCommand)
  | shutdown (command : ShutdownCommand)
deriving DecidableEq

namespace Command

def serialize : Command → List Char
  | addLabel c => c.serialize
  | reclassify c => c.serialize
  | shutdown c => c.serialize

/-- The tests of `messageLoop`, in their order; a message that passes none is ignored. -/
def deserialize (str : List Char) : Except DeserializeError (Option Command) :=
  if AddLabelCommand.isAddLabelCommand str then
    (AddLabelCommand.deserialize str).map fun c => some (addLabel c)
  else if ReclassifyCommand.isReclassifyCommand str then
    (ReclassifyCommand.deserialize str).map fun c => some (reclassify c)
  else if ShutdownCommand.isShutDownCommand str then .ok (some (shutdown {}))
  else .ok none

/-- The results of the tests. -/
def tests (str : List Char) : List Bool :=
  [AddLabelCommand.isAddLabelCommand str, ReclassifyCommand.isReclassifyCommand str,
    ShutdownCommand.isShutDownCommand str]

end Command

/-! ## The client -/

/-- `queue.send(data.c_str(), size, 1)` -/
structure Send where
  data : List Char
  size : ℕ

namespace Send

/-- The storage of a string: its characters and a terminating zero. -/
def storage (s : Send) : List Char := s.data ++ ['\x00']

/-- What is sent, when the storage is followed by `memory`. -/
def bytes (s : Send) (memory : List Char) : List Char := (s.storage ++ memory).take s.size

end Send

namespace Client

def addLabel (c : AddLabelCommand) : Option Send :=
  let message := c.serialize
  if maxMessageSize < message.length then none else some ⟨message, message.length⟩

def shutdownCommand (c : ShutdownCommand) : Option Send := some ⟨c.serialize, maxMessageSize⟩

def reclassifyCommand (c : ReclassifyCommand) : Option Send :=
  let message := c.serialize
  if maxMessageSize < message.length then none else some ⟨message, message.length⟩

def send : Command → Option Send
  | .addLabel c => addLabel c
  | .reclassify c => reclassifyCommand c
  | .shutdown c => shutdownCommand c

end Client

/-! ## Agreement -/

namespace Command

/-- The label, if the command has one, is finite. -/
def FiniteLabel : Command → Prop
  | addLabel c => ∃ negative m, c.label = .finite negative m
  | reclassify _ | shutdown _ => True

/-- The client sends the text of the command, and the server reads the command. -/
structure Agrees (c : Command) : Prop where
  sent : ∃ s, Client.send c = some s ∧ s.size ≤ s.storage.length ∧
    ∀ memory, s.bytes memory = c.serialize
  test : (tests c.serialize).count true = 1
  read : deserialize c.serialize = .ok (some c)

/-- The label is the `double` nearest to a number of at most six digits, and finding
    it reports no underflow. -/
def KeptLabel (label : Double) : Prop :=
  ∃ negative m q, label = .finite negative m ∧ HasDigits 6 q ∧ ¬ Rounding.Binary64.Underflows q ∧
    Rounding.Binary64.round q = m.value

/-- When client and server agree. -/
def Kept : Command → Prop
  | addLabel c => KeptLabel c.label
  | reclassify _ => True
  | shutdown _ => False

end Command

section
variable {str : List Char}

theorem hasPrefix_append (commandPrefix : List Char) :
    hasPrefix commandPrefix (commandPrefix ++ str) = true := by
  rw [hasPrefix, List.take_left, beq_self_eq_true]

theorem hasPrefix_iff {commandPrefix : List Char} :
    hasPrefix commandPrefix str = true ↔ ∃ rest, str = commandPrefix ++ rest := by
  constructor
  · intro h
    rw [hasPrefix, beq_iff_eq] at h
    refine ⟨str.drop commandPrefix.length, ?_⟩
    calc str = str.take commandPrefix.length ++ str.drop commandPrefix.length :=
          (List.take_append_drop ..).symm
      _ = commandPrefix ++ str.drop commandPrefix.length := congrArg (· ++ _) h
  · rintro ⟨rest, rfl⟩
    exact hasPrefix_append commandPrefix

theorem Send.bytes_of_length (data memory : List Char) :
    (Send.mk data data.length).bytes memory = data := by
  rw [Send.bytes, Send.storage, List.append_assoc, List.take_left]

theorem findIdx?_no_comma {ds : List Char} (h : ',' ∉ ds) : ds.findIdx? (· == ',') = none := by
  rw [List.findIdx?_eq_none_iff]
  intro c hc
  rw [beq_eq_false_iff_ne]
  rintro rfl
  exact h hc

theorem findIdx?_comma {ds rest : List Char} (h : ',' ∉ ds) :
    (ds ++ ',' :: rest).findIdx? (· == ',') = some ds.length := by
  simp [List.findIdx?_append, findIdx?_no_comma h, List.findIdx?_cons]

/-- What is read for a text that has a comma behind `idText`. -/
theorem AddLabelCommand.deserialize_comma {idText labelText : List Char} (hid : ',' ∉ idText)
    (hlabel : labelText ≠ []) :
    deserialize (commandPrefix ++ (idText ++ ',' :: labelText)) =
      match stoul idText, stod labelText with
      | .error e, _ => .error (.conversion e)
      | .ok _, .error e => .error (.conversion e)
      | .ok eventId, .ok label => .ok ⟨eventId, label⟩ := by
  have hend : idText.length ≠ (idText ++ ',' :: labelText).length - 1 := by
    have := List.length_pos_iff.2 hlabel
    rw [List.length_append, List.length_cons]
    omega
  have hdrop : (idText ++ ',' :: labelText).drop (idText.length + 1) = labelText := by
    rw [List.drop_append, List.drop_eq_nil_of_le (by omega), Nat.add_sub_cancel_left]
    rfl
  have htest : isAddLabelCommand (commandPrefix ++ (idText ++ ',' :: labelText)) = true :=
    hasPrefix_append _
  rw [deserialize, if_pos htest]
  simp only [List.drop_left, findIdx?_comma hid, if_neg hend, List.take_left, hdrop]

/-- Without a comma, or with nothing behind it, nothing is read. -/
theorem AddLabelCommand.deserialize_error {rest : List Char}
    (h : ',' ∉ rest ∨ ∃ idText, ',' ∉ idText ∧ rest = idText ++ [',']) :
    deserialize (commandPrefix ++ rest) = .error (.int (-1)) := by
  have htest : isAddLabelCommand (commandPrefix ++ rest) = true := hasPrefix_append _
  rw [deserialize, if_pos htest, List.drop_left]
  dsimp only
  rcases h with h | ⟨idText, hid, rfl⟩
  · rw [findIdx?_no_comma h]
  · rw [findIdx?_comma hid]
    simp

theorem AddLabelCommand.deserialize_eq_ok_iff {rest : List Char} {c : AddLabelCommand} :
    deserialize (commandPrefix ++ rest) = .ok c ↔
      ∃ idText labelText, rest = idText ++ ',' :: labelText ∧ ',' ∉ idText ∧ labelText ≠ [] ∧
        stoul idText = .ok c.eventId ∧ stod labelText = .ok c.label := by
  constructor
  · intro h
    by_cases hmem : ',' ∈ rest
    · obtain ⟨idText, labelText, rfl, hid⟩ := List.eq_append_cons_of_mem hmem
      rcases eq_or_ne labelText [] with rfl | hlabel
      · rw [deserialize_error (.inr ⟨idText, hid, rfl⟩)] at h
        cases h
      · rw [deserialize_comma hid hlabel] at h
        cases hstoul : stoul idText with
        | error e =>
          rw [hstoul] at h
          cases h
        | ok eventId =>
          cases hstod : stod labelText with
          | error e =>
            rw [hstoul, hstod] at h
            cases h
          | ok label =>
            rw [hstoul, hstod] at h
            cases h
            exact ⟨idText, labelText, rfl, hid, hlabel, hstoul, hstod⟩
    · rw [deserialize_error (.inl hmem)] at h
      cases h
  · rintro ⟨idText, labelText, rfl, hid, hlabel, hstoul, hstod⟩
    rw [deserialize_comma hid hlabel, hstoul, hstod]

/-- What is read for the text of a command, whatever is read for its label. -/
theorem AddLabelCommand.deserialize_serialize (c : AddLabelCommand) :
    deserialize c.serialize =
      match stod (showDouble c.label) with
      | .error e => .error (.conversion e)
      | .ok label => .ok { c with label } := by
  have htext : c.serialize =
      commandPrefix ++ (showUnsigned c.eventId ++ ',' :: showDouble c.label) := by
    simp [serialize]
  have hcomma : ',' ∉ showUnsigned c.eventId := fun h => by
    cases isDigit_of_mem_toDigits h
  rw [htext, deserialize_comma hcomma (showDouble_ne_nil c.label), stoul_showUnsigned]
  cases stod (showDouble c.label) <;> rfl

theorem ReclassifyCommand.deserialize_eq (rest : List Char) :
    deserialize (commandPrefix ++ rest) =
      match stoul rest with
      | .error e => .error (.conversion e)
      | .ok eventId => .ok ⟨eventId⟩ := by
  have htest : isReclassifyCommand (commandPrefix ++ rest) = true := hasPrefix_append _
  rw [deserialize, if_pos htest, List.drop_left]

theorem ReclassifyCommand.deserialize_serialize (c : ReclassifyCommand) :
    deserialize c.serialize = .ok c := by
  rw [serialize, deserialize_eq, stoul_showUnsigned]

namespace Command

/-! ### The tests -/

theorem tests_addLabel (s : List Char) :
    tests (AddLabelCommand.commandPrefix ++ s) = [true, false, false] := rfl

theorem tests_reclassify (s : List Char) :
    tests (ReclassifyCommand.commandPrefix ++ s) = [false, true, false] := rfl

/-- **Each command passes its own test only.** -/
theorem tests_serialize (c : Command) : (tests c.serialize).count true = 1 := by
  cases c with
  | addLabel c =>
    rw [serialize, AddLabelCommand.serialize, List.append_assoc, List.append_assoc, tests_addLabel]
    rfl
  | reclassify c =>
    rw [serialize, ReclassifyCommand.serialize, tests_reclassify]
    rfl
  | shutdown c => rfl

theorem deserialize_addLabel (s : List Char) :
    deserialize (AddLabelCommand.commandPrefix ++ s) =
      (AddLabelCommand.deserialize (AddLabelCommand.commandPrefix ++ s)).map
        fun c => some (addLabel c) := rfl

theorem deserialize_reclassify (s : List Char) :
    deserialize (ReclassifyCommand.commandPrefix ++ s) =
      (ReclassifyCommand.deserialize (ReclassifyCommand.commandPrefix ++ s)).map
        fun c => some (reclassify c) := rfl

/-! ### Sending -/

/-- A message that fits is sent as it is. -/
theorem sent_of_length {message : List Char} (h : message.length ≤ maxMessageSize) :
    ∃ s, (if maxMessageSize < message.length then none
        else some (Send.mk message message.length)) = some s ∧
      s.size ≤ s.storage.length ∧ ∀ memory, s.bytes memory = message := by
  refine ⟨⟨message, message.length⟩, if_neg (not_lt.2 h), ?_, Send.bytes_of_length _⟩
  rw [Send.storage, List.length_append]
  exact Nat.le_add_right _ _

theorem length_addLabel_le {c : AddLabelCommand} {negative : Bool} {m : Magnitude}
    (h : c.label = .finite negative m) : c.serialize.length ≤ maxMessageSize := by
  have hid := length_showUnsigned_le c.eventId
  have hlabel := length_showDouble_le negative m
  have hprefix : AddLabelCommand.commandPrefix.length = 10 := rfl
  rw [AddLabelCommand.serialize, h, maxMessageSize]
  simp only [List.length_append, List.length_singleton]
  omega

theorem length_reclassify_le (c : ReclassifyCommand) : c.serialize.length ≤ maxMessageSize := by
  have hid := length_showUnsigned_le c.eventId
  have hprefix : ReclassifyCommand.commandPrefix.length = 11 := rfl
  rw [ReclassifyCommand.serialize, maxMessageSize, List.length_append]
  omega

/-- The client sends more of a shutdown command than it has. -/
theorem shutdown_not_sent (c : ShutdownCommand) :
    ¬ ∃ s, Client.send (.shutdown c) = some s ∧ s.size ≤ s.storage.length := by
  rintro ⟨s, hs, hsize⟩
  cases hs
  cases c
  revert hsize
  decide

/-- A label to be added arrives iff its number does. -/
theorem read_addLabel_iff {c : AddLabelCommand} {negative : Bool} {m : Magnitude}
    (h : c.label = .finite negative m) :
    deserialize (serialize (addLabel c)) = .ok (some (addLabel c)) ↔
      stod (showDouble (.finite negative m)) = .ok (.finite negative m) := by
  have htext : serialize (addLabel c) =
      AddLabelCommand.commandPrefix ++ (showUnsigned c.eventId ++ [','] ++ showDouble c.label) := by
    simp [serialize, AddLabelCommand.serialize]
  have hread := AddLabelCommand.deserialize_serialize c
  have hsame : c.serialize = serialize (addLabel c) := rfl
  rw [hsame, htext] at hread
  rw [htext, deserialize_addLabel, hread, h]
  obtain ⟨eventId, label⟩ := c
  cases h
  cases stod (showDouble (.finite negative m)) with
  | error e => simp [Except.map]
  | ok label => simp [Except.map]

/-- **Client and server agree exactly on the commands other than shutdown, with
    labels of at most six digits.** -/
theorem commands_agree_iff (c : Command) (h : c.FiniteLabel) : c.Agrees ↔ c.Kept := by
  cases c with
  | addLabel c =>
    obtain ⟨negative, m, hlabel⟩ := h
    have hread := (read_addLabel_iff hlabel).trans stod_showDouble_eq_iff
    constructor
    · intro hagrees
      obtain ⟨q, hq, hunder, hround⟩ := hread.1 hagrees.read
      exact ⟨negative, m, q, hlabel, hq, hunder, hround⟩
    · rintro ⟨negative', m', q, hlabel', hq, hunder, hround⟩
      rw [hlabel] at hlabel'
      cases hlabel'
      constructor
      · exact sent_of_length (length_addLabel_le hlabel)
      · exact tests_serialize _
      · exact hread.2 ⟨q, hq, hunder, hround⟩
  | reclassify c =>
    refine iff_of_true ?_ trivial
    constructor
    · exact sent_of_length (length_reclassify_le c)
    · exact tests_serialize _
    · show deserialize (ReclassifyCommand.commandPrefix ++ _) = _
      rw [deserialize_reclassify]
      have hread := c.deserialize_serialize
      rw [ReclassifyCommand.serialize] at hread
      rw [hread]
      rfl
  | shutdown c =>
    refine iff_of_false ?_ id
    intro hagrees
    obtain ⟨s, hs, hsize, -⟩ := hagrees.sent
    exact shutdown_not_sent c ⟨s, hs, hsize⟩

/-- The label 1234567 arrives as 1234570, and a shutdown is sent with the memory
    behind its text. -/
theorem commands_disagree :
    deserialize (addLabel ⟨0, .finite false (.ofNat 1234567 (by decide))⟩).serialize =
        .ok (some (addLabel ⟨0, .finite false (.ofNat 1234570 (by decide))⟩)) ∧
      ¬ (addLabel ⟨0, .finite false (.ofNat 1234567 (by decide))⟩).Agrees ∧
      ¬ (shutdown {}).Agrees := by
  have hread : deserialize (addLabel ⟨0, .finite false (.ofNat 1234567 (by decide))⟩).serialize =
      .ok (some (addLabel ⟨0, .finite false (.ofNat 1234570 (by decide))⟩)) := by decide +kernel
  refine ⟨hread, ?_, ?_⟩
  · intro hagrees
    have h := hread.symm.trans hagrees.read
    revert h
    decide +kernel
  · intro hagrees
    obtain ⟨s, hs, hsize, -⟩ := hagrees.sent
    exact shutdown_not_sent {} ⟨s, hs, hsize⟩

/-- A label of one digit. -/
theorem commands_agree_iff_seven :
    (addLabel ⟨1, .finite false (.ofNat 7 (by decide))⟩).Agrees ↔
      (addLabel ⟨1, .finite false (.ofNat 7 (by decide))⟩).Kept :=
  commands_agree_iff _ ⟨_, _, rfl⟩

end Command

end

end SmartScreen
