import Coordination.Settings.Basic
import Coordination.Json.Reader

/-!
Settings as JSON. The record's form is an object with the keys `connectString`,
`sessionTimeoutMs`, `reconnectIntervalMs` and `operationTimeoutMs`, or an array giving the
fields in that order. Any field may be left out and then takes its default; unknown keys are
skipped; a field given twice is an error. The connect string and the operation timeout may
be `null`; the two other fields must be unsigned integers.

`Settings.ofText` reads the record straight from text, so its errors carry a place;
`Settings.ofValue` takes a value apart, and its errors carry none.
-/

namespace Coordination.Settings

open Json

/-- A field of the record, in the order of the array form. -/
inductive Field where
  | connectString
  | sessionTimeoutMs
  | reconnectIntervalMs
  | operationTimeoutMs
  deriving DecidableEq, Repr

def Field.key : Field → String
  | .connectString => "connectString"
  | .sessionTimeoutMs => "sessionTimeoutMs"
  | .reconnectIntervalMs => "reconnectIntervalMs"
  | .operationTimeoutMs => "operationTimeoutMs"

/-- The field a key names, if any. -/
def Field.ofKey? (k : String) : Option Field :=
  [Field.connectString, .sessionTimeoutMs, .reconnectIntervalMs, .operationTimeoutMs].find?
    (·.key = k)

/-- How the record is described in errors. -/
def expectedRecord : String := "struct ClientSettings"

/-- How an unsigned field is described in errors. -/
def expectedUnsigned : String := "u64"

/-- How a text field is described in errors. -/
def expectedText : String := "a string"

/-- The fields given so far; `none` for a field not yet given. -/
structure Partial where
  connectString : Option (Option String) := none
  sessionTimeoutMs : Option Nat := none
  reconnectIntervalMs : Option Nat := none
  operationTimeoutMs : Option (Option Nat) := none

/-- The record from the given fields, with defaults for the others. -/
def Partial.fill (p : Partial) : Settings :=
  ⟨p.connectString.getD defaults.connectString,
   p.sessionTimeoutMs.getD defaults.sessionTimeoutMs,
   p.reconnectIntervalMs.getD defaults.reconnectIntervalMs,
   p.operationTimeoutMs.getD defaults.operationTimeoutMs⟩

def Partial.has (p : Partial) : Field → Bool
  | .connectString => p.connectString.isSome
  | .sessionTimeoutMs => p.sessionTimeoutMs.isSome
  | .reconnectIntervalMs => p.reconnectIntervalMs.isSome
  | .operationTimeoutMs => p.operationTimeoutMs.isSome

/-! ### From a value -/

/-- An unsigned field from a value. -/
def unsignedOfValue : Value → Except Error Nat
  | .num (.nat n) => .ok n
  | .num (.neg n) => .error ⟨.invalidValue (.signed (-(n : Int))) expectedUnsigned, none⟩
  | v => .error ⟨.invalidType v.found expectedUnsigned, none⟩

/-- A text field from a value, `null` giving none. -/
def optTextOfValue : Value → Except Error (Option String)
  | .null => .ok none
  | .str s => .ok (some s)
  | v => .error ⟨.invalidType v.found expectedText, none⟩

/-- An optional unsigned field from a value, `null` giving none. -/
def optUnsignedOfValue : Value → Except Error (Option Nat)
  | .null => .ok none
  | v => some <$> unsignedOfValue v

/-- Records field `f` read from value `v`. -/
def Partial.setOfValue (p : Partial) (f : Field) (v : Value) : Except Error Partial :=
  match f with
  | .connectString => do pure { p with connectString := some (← optTextOfValue v) }
  | .sessionTimeoutMs => do pure { p with sessionTimeoutMs := some (← unsignedOfValue v) }
  | .reconnectIntervalMs => do pure { p with reconnectIntervalMs := some (← unsignedOfValue v) }
  | .operationTimeoutMs => do pure { p with operationTimeoutMs := some (← optUnsignedOfValue v) }

/-- The field order of the array form. -/
def fieldOrder : List Field :=
  [.connectString, .sessionTimeoutMs, .reconnectIntervalMs, .operationTimeoutMs]

/-- Takes settings apart from a value: an object by its keys in order, an array by
position (more than four items is an error), anything else is of the wrong type. -/
def ofValue (v : Value) : Except Error Settings :=
  match v with
  | .obj kvs => do
    let step (p : Partial) (kx : String × Value) : Except Error Partial :=
      match Field.ofKey? kx.1 with
      | some f => p.setOfValue f kx.2
      | none => pure p
    let p ← kvs.foldlM step {}
    pure p.fill
  | .arr xs => do
    let step (p : Partial) (fx : Field × Value) : Except Error Partial := p.setOfValue fx.1 fx.2
    let p ← (fieldOrder.zip xs).foldlM step {}
    if xs.length > fieldOrder.length then
      throw ⟨.invalidLength xs.length "fewer elements in array", none⟩
    pure p.fill
  | v => .error ⟨.invalidType v.found expectedRecord, none⟩

/-- The settings as a value, in the object form. -/
def toValue (s : Settings) : Value :=
  .obj [("connectString", match s.connectString with | some c => .str c | none => .null),
        ("operationTimeoutMs", match s.operationTimeoutMs with
          | some n => .num (.nat n) | none => .null),
        ("reconnectIntervalMs", .num (.nat s.reconnectIntervalMs)),
        ("sessionTimeoutMs", .num (.nat s.sessionTimeoutMs))]

/-! ### From text -/

namespace Text

open Json.Reader

/-- Fails with a type error for the value that starts at the cursor, after reading as much
of it as its description needs (a whole scalar, only the bracket of an array or object). -/
def invalidType {α : Type} (expected : String) : Reader α := do
  let b ← peekOrNull
  let found ←
    if b == 110 then do
      bump
      word [117, 108, 108]
      pure Found.null
    else if b == 116 then do
      bump
      word [114, 117, 101]
      pure (Found.bool true)
    else if b == 102 then do
      bump
      word [97, 108, 115, 101]
      pure (Found.bool false)
    else if b == 45 then do
      bump
      pure (← number false).found
    else if isDigit b then do
      pure (← number true).found
    else if b == 34 then do
      bump
      pure (Found.string (← string))
    else if b == 91 then pure Found.sequence
    else if b == 123 then pure Found.map
    else failPeek .expectedValue
  fail (.invalidType found expected)

/-- Reads an unsigned field. -/
def unsigned : Reader Nat := do
  match ← skipBlank with
  | none => failPeek .eofWhileValue
  | some b =>
    let n ← if b == 45 then do
        bump
        number false
      else if isDigit b then number true
      else invalidType expectedUnsigned
    match n with
    | .nat k => pure k
    | .neg k => fail (.invalidValue (.signed (-(k : Int))) expectedUnsigned)
    | .float bits => fail (.invalidType (.float bits) expectedUnsigned)

/-- Reads an optional field: `null` gives none, anything else is read by `r`. -/
def optional {α : Type} (r : Reader α) : Reader (Option α) := do
  match ← skipBlank with
  | some 110 =>
    bump
    word [117, 108, 108]
    pure none
  | _ => some <$> r

/-- Reads a text field. -/
def text : Reader String := do
  match ← skipBlank with
  | none => failPeek .eofWhileValue
  | some 34 =>
    bump
    string
  | some _ => invalidType expectedText

/-- Reads the value of field `f` into the partial record. -/
def Partial.read (p : Partial) : Field → Reader Partial
  | .connectString => do pure { p with connectString := some (← optional text) }
  | .sessionTimeoutMs => do pure { p with sessionTimeoutMs := some (← unsigned) }
  | .reconnectIntervalMs => do pure { p with reconnectIntervalMs := some (← unsigned) }
  | .operationTimeoutMs => do pure { p with operationTimeoutMs := some (← optional unsigned) }

/-- Reads the fields of the array form, in order, up to four. -/
def items : List Field → Bool → Partial → Reader Partial
  | [], _, p => pure p
  | f :: fs, first, p => do
    match ← nextItem first with
    | none => pure p
    | some () => items fs false (← Partial.read p f)

/-- What an object entry asks for: the end, a field of the record, or a key to skip. -/
inductive Entry where
  | done
  | field (f : Field)
  | skip

/-- Reads the entries of the object form. A field given twice is reported at the place after
the blanks that follow its key (and after a closing brace right there). -/
def entries : Nat → Bool → Partial → Reader Partial
  | 0, _, _ => fail .eofWhileObject
  | fuel + 1, first, p => do
    let entry ← match ← nextKey first with
      | none => pure Entry.done
      | some k => pure (match Field.ofKey? k with | some f => .field f | none => .skip)
    match entry with
    | .done => pure p
    | .field f =>
      if p.has f then
        -- the end of the object is looked for before the place is fixed
        if (← skipBlank) == some 125 then bump
        fail (.duplicateField f.key)
      colon
      entries fuel false (← Partial.read p f)
    | .skip =>
      colon
      skipValue
      entries fuel false p

/-- Reads the record at the cursor. -/
def record : Reader Settings := do
  match ← skipBlank with
  | none => failPeek .eofWhileValue
  | some 91 =>
    let _ ← enter depthLimit
    let p ← items fieldOrder true {}
    endArray
    pure p.fill
  | some 123 =>
    let _ ← enter depthLimit
    let p ← entries (← left) true {}
    endObject
    pure p.fill
  | some _ => invalidType expectedRecord

end Text

/-- Reads settings from JSON text holding exactly the record. -/
def ofText (s : String) : Except Error Settings :=
  Reader.run Text.record s.toUTF8

end Coordination.Settings
