import PacketCore.Library.Loop
import PacketCore.Library.Word

/-!
# Readers

A reader consumes bytes from the front of its input.  `Reads` says that a
reader turns one byte string into one value whatever follows it; records are
proved readable field by field with `Reads.bind`.  `Yields` is the same for a
reader that may also refuse what it has read.
-/

namespace PacketCore

variable {bytes input left right : List Byte} {width : ℕ}

section Readers

variable {ε α β : Type}

/-- A reader that leaves the bytes it did not need. -/
abbrev Reader (ε α : Type) := StateT (List Byte) (Except ε) α

variable {read : Reader ε α} {next : α → Reader ε β} {verdict : Except ε α}
  {value : α} {result : β} {outcome : Except ε β} {short : ε}

/-- The reader gives `value` for these bytes and leaves what follows them. -/
def Reads (read : Reader ε α) (bytes : List Byte) (value : α) : Prop :=
  ∀ rest, read.run (bytes ++ rest) = .ok (value, rest)

theorem Reads.pure (value : α) : Reads (pure value : Reader ε α) [] value := fun _ => rfl

theorem Reads.bind (hread : Reads read left value) (hnext : Reads (next value) right result) :
    Reads (read >>= next) (left ++ right) result := by
  intro _
  rw [List.append_assoc, StateT.run_bind, hread]
  exact hnext _

theorem Reads.last {make : α → β} (hread : Reads read bytes value) :
    Reads (do let field ← read; Pure.pure (make field)) bytes (make value) := by
  intro _
  rw [StateT.run_bind, hread]
  rfl

/-- A check that reads nothing. -/
theorem Reads.check (hverdict : verdict = .ok value) :
    Reads (StateT.lift verdict : Reader ε α) [] value := by
  intro _
  rw [hverdict]
  rfl

theorem Reads.guard (hverdict : verdict = .ok value) (hnext : Reads (next value) bytes result) :
    Reads (StateT.lift verdict >>= next) bytes result := by
  simpa using (Reads.check hverdict).bind hnext

/-- A field that is checked after it has been read. -/
theorem Reads.checked {check : α → Except ε β}
    (hread : Reads read bytes value) (hcheck : check value = .ok result) :
    Reads (do let field ← read; StateT.lift (check field)) bytes result := by
  intro _
  rw [StateT.run_bind, hread, ok_bind, hcheck]
  rfl

/-- The two parts of a reader that succeeded. -/
theorem run_bind_eq_ok {output : β × List Byte}
    (hrun : (read >>= next).run input = .ok output) :
    ∃ value rest, read.run input = .ok (value, rest) ∧ (next value).run rest = .ok output := by
  obtain ⟨⟨value, rest⟩, hread, hnext⟩ := bind_eq_ok hrun
  exact ⟨value, rest, hread, hnext⟩

/-- A check that succeeded before the rest of a reader. -/
theorem run_guard_eq_ok {output : β × List Byte}
    (hrun : (StateT.lift verdict >>= next).run input = .ok output) :
    ∃ value, verdict = .ok value ∧ (next value).run input = .ok output := by
  cases verdict with
  | error => cases hrun
  | ok value => exact ⟨value, rfl, hrun⟩

/-- The reader comes to this outcome on these bytes, whatever follows them. -/
def Yields (read : Reader ε α) (bytes : List Byte) (outcome : Except ε α) : Prop :=
  ∀ rest, read.run (bytes ++ rest) = outcome.map (·, rest)

theorem Yields.pure (value : α) : Yields (pure value : Reader ε α) [] (.ok value) := fun _ => rfl

theorem Yields.bind {outcome : Except ε α} {after : α → Except ε β}
    (hread : Yields read left outcome)
    (hnext : ∀ value, outcome = .ok value → Yields (next value) right (after value)) :
    Yields (read >>= next) (left ++ right) (outcome >>= after) := by
  intro _
  rw [List.append_assoc, StateT.run_bind, hread]
  cases outcome with
  | error => rfl
  | ok => exact hnext _ rfl _

/-- A field that is read without fail, before the rest of the record. -/
theorem Yields.field (hread : Reads read left value) (hnext : Yields (next value) right outcome) :
    Yields (read >>= next) (left ++ right) outcome := by
  have hafter : ∀ other, Except.ok value = (.ok other : Except ε α) →
      Yields (next other) right ((fun _ => outcome) other) := by
    intro other hother
    cases hother
    exact hnext
  exact (show Yields _ _ (.ok _) from hread).bind hafter

theorem Yields.guard {after : α → Except ε β}
    (hnext : ∀ value, verdict = .ok value → Yields (next value) bytes (after value)) :
    Yields (StateT.lift verdict >>= next) bytes (verdict >>= after) := by
  have hcheck : Yields (StateT.lift verdict : Reader ε α) [] verdict := by
    intro _
    cases verdict <;> rfl
  exact hcheck.bind hnext

theorem Yields.pass (hverdict : verdict = .ok value) (hnext : Yields (next value) bytes outcome) :
    Yields (StateT.lift verdict >>= next) bytes outcome := by
  subst hverdict
  exact hnext

/-- A refusal that does not apply. -/
theorem Yields.unrefused {test : Prop} [Decidable test] {fault : ε}
    {next : Unit → Reader ε β} (htest : ¬ test) (hnext : Yields (next ()) bytes outcome) :
    Yields (StateT.lift (refuseIf test fault) >>= next) bytes outcome :=
  Yields.pass (refuseIf_eq_ok.mpr htest) hnext

/-- A field with nothing but checks after it. -/
theorem Yields.final (hread : Reads read bytes value)
    (hnext : Yields (next value) [] outcome) : Yields (read >>= next) bytes outcome := by
  simpa using Yields.field hread hnext

/-- The last field of a record. -/
theorem Yields.last {make : α → β} {outcome : Except ε α}
    (hread : Yields read bytes outcome) :
    Yields (do let field ← read; Pure.pure (make field)) bytes (make <$> outcome) := by
  intro _
  rw [StateT.run_bind, hread]
  cases outcome <;> rfl

namespace Reader

/-- Exactly `count` bytes. -/
def take (short : ε) (count : ℕ) : Reader ε (List Byte) := fun input =>
  if count ≤ input.length then .ok (input.take count, input.drop count) else .error short

/-- A byte string of fixed width. -/
def octets (short : ε) (width : ℕ) : Reader ε (List.Vector Byte width) := fun input =>
  if hwidth : width ≤ input.length then
    .ok (⟨input.take width, by simpa using hwidth⟩, input.drop width)
  else .error short

/-- A big-endian number of fixed width. -/
def number (short : ε) (width : ℕ) : Reader ε ℕ := do
  let bytes ← take short width
  return fromBigEndian bytes

/-- An unsigned register. -/
def word (short : ε) (width : ℕ) : Reader ε (Word width) := do
  let value ← number short width
  return Fin.ofNat (256 ^ width) value

/-- A register that must not be zero. -/
def nonZero (short zero : ε) (width : ℕ) : Reader ε (NonZero width) := do
  let value ← number short width
  StateT.lift (okOr (NonZero.ofNat? width value) zero)

/-- `count` values one after the other. -/
def repeated (read : Reader ε α) : ℕ → Reader ε (List α)
  | 0 => pure []
  | count + 1 => do
    let first ← read
    let rest ← repeated read count
    return first :: rest

end Reader

theorem Reads.take {count : ℕ} (hlength : bytes.length = count) :
    Reads (Reader.take short count) bytes bytes := by
  intro _
  subst hlength
  simp [Reader.take, StateT.run]

theorem Reads.octets (value : List.Vector Byte width) :
    Reads (Reader.octets short width) value.toList value := by
  intro _
  obtain ⟨_, rfl⟩ := value
  simp [Reader.octets, StateT.run]

theorem Reads.number {value : ℕ} (hvalue : value < 256 ^ width) :
    Reads (Reader.number short width) (bigEndian width value) value := by
  have htake : Reads (Reader.take short width) (bigEndian width value) (bigEndian width value) :=
    Reads.take (length_bigEndian _ _)
  have hread : Reads (Reader.number short width) (bigEndian width value)
      (fromBigEndian (bigEndian width value)) := htake.last
  rwa [fromBigEndian_bigEndian hvalue] at hread

theorem Reads.word (word : Word width) :
    Reads (Reader.word short width) word.bytes word := by
  have hread : Reads (Reader.word short width) word.bytes (Fin.ofNat (256 ^ width) word.val) :=
    (Reads.number word.isLt).last
  rwa [show Fin.ofNat (256 ^ width) word.val = word from
    Fin.ext (Nat.mod_eq_of_lt word.isLt)] at hread

theorem Reads.nonZero {zero : ε} (word : NonZero width) :
    Reads (Reader.nonZero short zero width) word.bytes word :=
  (Reads.number word.1.isLt).checked (by rw [NonZero.ofNat?_val]; rfl)

theorem Reads.repeated {write : α → List Byte} {values : List α}
    (hread : ∀ value ∈ values, Reads read (write value) value) :
    Reads (Reader.repeated read values.length) (values.flatMap write) values := by
  induction values with
  | nil => exact Reads.pure []
  | cons value _ ih =>
    have hfirst := hread value (by simp)
    have hrest := ih fun other hother => hread _ (by simp [hother])
    exact hfirst.bind hrest.last

end Readers

end PacketCore
