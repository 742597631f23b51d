import Coordination.Json.Error

/-!
Reading JSON text. The reader walks the UTF-8 bytes of the text with a cursor; an error
records the place where it was found, either at the cursor (the bytes consumed so far) or
just past the next byte when the problem is in that byte.

Numbers keep their class: an integer without fraction or exponent is unsigned if it fits
64 bits, negative if it fits 64 signed bits (`-0` is the float negative zero), and any
other number is a binary64 number computed as its digits as a 64-bit integer, multiplied
or divided by a power of ten, failing when a product overflows. Nesting is limited to 127
arrays and objects.
-/

namespace Coordination.Json

/-- The text being read and the number of its bytes consumed. -/
structure Cursor where
  text : ByteArray
  pos : Nat

/-- A reading step: it moves the cursor or fails with an error. -/
abbrev Reader := StateT Cursor (Except Error)

/-- The place of byte offset `i` of a text. -/
def placeAt (t : ByteArray) (i : Nat) : Place :=
  let before := (t.extract 0 i).toList
  let lines := before.count 10
  let lastBreak := before.reverse.takeWhile (· ≠ 10)
  ⟨lines + 1, lastBreak.length⟩

namespace Reader

def fail {α : Type} (p : Problem) : Reader α := do
  let c ← get
  throw ⟨p, some (placeAt c.text c.pos)⟩

/-- Fails just past the next byte (at the end of the text when there is none). -/
def failPeek {α : Type} (p : Problem) : Reader α := do
  let c ← get
  throw ⟨p, some (placeAt c.text (min (c.pos + 1) c.text.size))⟩

def peek? : Reader (Option UInt8) := do
  let c ← get
  pure c.text[c.pos]?

/-- The next byte, or 0 at the end. -/
def peekOrNull : Reader UInt8 := do
  pure ((← peek?).getD 0)

def bump : Reader Unit :=
  modify fun c => { c with pos := c.pos + 1 }

def next? : Reader (Option UInt8) := do
  let b ← peek?
  if b.isSome then bump
  pure b

/-- The offset of the first byte at or after `i` that is not a space, tab, line feed or
carriage return. -/
def blankEnd (t : ByteArray) (i : Nat) : Nat :=
  if h : i < t.size then
    let b := t[i]
    if b == 32 || b == 10 || b == 9 || b == 13 then blankEnd t (i + 1) else i
  else i
termination_by t.size - i

/-- Skips blanks and returns the next byte, not consumed. -/
def skipBlank : Reader (Option UInt8) := do
  modify fun c => { c with pos := blankEnd c.text c.pos }
  peek?

/-- Consumes the rest `w` of a word such as `null` after its first letter. -/
def word (w : List UInt8) : Reader Unit :=
  w.forM fun expected => do
    match ← next? with
    | none => fail .eofWhileValue
    | some b => if b != expected then fail .expectedIdent

def isDigit (b : UInt8) : Bool := 48 ≤ b && b ≤ 57

def digitValue (b : UInt8) : Nat := (b - 48).toNat

/-- Consumes ASCII digits, at most `fuel` of them, and returns how many. -/
def skipDigits : Nat → Reader Nat
  | 0 => pure 0
  | fuel + 1 => do
    if isDigit (← peekOrNull) then
      bump
      pure ((← skipDigits fuel) + 1)
    else pure 0

/-- Bytes left after the cursor, a bound on every loop over them. -/
def left : Reader Nat := do
  let c ← get
  pure (c.text.size - c.pos + 1)

/-! ### Numbers -/

/-- The largest 32-bit signed integer, the limit of exponents. -/
def expLimit : Int := 2147483647

/-- Adds within the 32-bit signed range, stopping at its ends. -/
def clampExp (e : Int) : Int := max (-expLimit - 1) (min expLimit e)

/-- `10^k` as the nearest binary64 number. -/
def pow10 (k : Nat) : Float := Float.ofBits (Decimal.nearestBits (Nat.pow 10 k))

/-- Divides by `10^308` until the exponent is in the table or the value reaches zero. -/
def scaleDown : Nat → Float → Int → Float × Int
  | 0, f, e => (f, e)
  | fuel + 1, f, e =>
    if e ≥ -308 ∨ f == 0 then (f, e) else scaleDown fuel (f / pow10 308) (e + 308)

/-- `significand · 10^exponent` as binary64: one multiplication or division by a power of
ten, so the last bit may differ from the nearest number. -/
def fromParts (positive : Bool) (significand : Nat) (exponent : Int) : Reader Float := do
  let f := significand.toUInt64.toFloat
  let f ← if exponent > 308 then
      if f == 0 then pure f else fail .numberOutOfRange
    else if exponent ≥ 0 then do
      let g := f * pow10 exponent.toNat
      if g.isInf then fail .numberOutOfRange else pure g
    else
      let (g, e) := scaleDown 8 f exponent
      if e < -308 then pure g else pure (g / pow10 (-e).toNat)
  pure (if positive then f else -f)

/-- A binary64 number as a JSON number. -/
def floatNumber (f : Float) : Number := .float f.toBits

/-- Whether `10 · s + d` would pass the largest unsigned 64-bit integer. -/
def overflows (s d : Nat) : Bool :=
  s ≥ maxUnsigned / 10 && (s > maxUnsigned / 10 || d > maxUnsigned % 10)

/-- Reads an exponent after `e` or `E` (not yet consumed). -/
def exponentPart (positive : Bool) (significand : Nat) (start : Int) : Reader Float := do
  bump
  let sign ← peekOrNull
  let positiveExp := sign != 45
  if sign == 43 || sign == 45 then bump
  let first ← match ← next? with
    | none => fail .eofWhileValue
    | some b => if isDigit b then pure (digitValue b) else fail .invalidNumber
  let rec more : Nat → Nat → Reader (Option Nat)
    | 0, e => pure (some e)
    | fuel + 1, e => do
      let b ← peekOrNull
      if isDigit b then
        bump
        let d := digitValue b
        if e ≥ 214748364 ∧ (e > 214748364 ∨ d > 7) then pure none
        else more fuel (10 * e + d)
      else pure (some e)
  match ← more (← left) first with
  | some e =>
    let final := if positiveExp then clampExp (start + e) else clampExp (start - e)
    fromParts positive significand final
  | none =>
    if significand ≠ 0 ∧ positiveExp then fail .numberOutOfRange
    else
      let _ ← skipDigits (← left)
      pure (if positive then 0.0 else -0.0)

/-- Reads the digits after a decimal point (the point not yet consumed). -/
def fractionPart (positive : Bool) (significand : Nat) (start : Int) : Reader Float := do
  bump
  let rec digits : Nat → Nat → Int → Reader (Nat × Int × Bool)
    | 0, s, e => pure (s, e, false)
    | fuel + 1, s, e => do
      let b ← peekOrNull
      if isDigit b then
        if overflows s (digitValue b) then pure (s, e, true)
        else
          bump
          digits fuel (10 * s + digitValue b) (e - 1)
      else pure (s, e, false)
  let (s, after, stopped) ← digits (← left) significand 0
  if stopped then
    -- the significand is full: the remaining digits are dropped
    let _ ← skipDigits (← left)
    let b ← peekOrNull
    if b == 101 || b == 69 then exponentPart positive s (start + after)
    else fromParts positive s (start + after)
  else
    if after = 0 then
      match ← peek? with
      | some _ => failPeek .invalidNumber
      | none => failPeek .eofWhileValue
    let b ← peekOrNull
    if b == 101 || b == 69 then exponentPart positive s (start + after)
    else fromParts positive s (start + after)

/-- The number after its integer digits `significand`. -/
def afterInteger (positive : Bool) (significand : Nat) : Reader Number := do
  let b ← peekOrNull
  if b == 46 then return floatNumber (← fractionPart positive significand 0)
  if b == 101 || b == 69 then return floatNumber (← exponentPart positive significand 0)
  if positive then return .nat significand
  if significand = 0 ∨ significand > Nat.pow 2 63 then
    return floatNumber (-(significand.toUInt64.toFloat))
  return .neg significand

/-- The number after integer digits that no longer fit 64 bits: the remaining integer
digits only raise the exponent. -/
def longInteger (positive : Bool) (significand : Nat) : Reader Number := do
  let extra ← skipDigits (← left)
  let b ← peekOrNull
  if b == 46 then return floatNumber (← fractionPart positive significand extra)
  if b == 101 || b == 69 then return floatNumber (← exponentPart positive significand extra)
  return floatNumber (← fromParts positive significand extra)

/-- Reads a number after its sign: `positive` is false when a minus sign was consumed. -/
def number (positive : Bool) : Reader Number := do
  match ← next? with
  | none => fail .eofWhileValue
  | some b =>
    if b == 48 then
      if isDigit (← peekOrNull) then failPeek .invalidNumber
      else afterInteger positive 0
    else if isDigit b then
      let rec digits : Nat → Nat → Reader Number
        | 0, s => afterInteger positive s
        | fuel + 1, s => do
          let c ← peekOrNull
          if isDigit c then
            if overflows s (digitValue c) then longInteger positive s
            else
              bump
              digits fuel (10 * s + digitValue c)
          else afterInteger positive s
      digits (← left) (digitValue b)
    else fail .invalidNumber

/-! ### Strings -/

/-- The UTF-8 bytes of a code point. -/
def utf8 (cp : Nat) : List UInt8 :=
  (String.singleton (Char.ofNat cp)).toUTF8.toList

/-- Reads four hexadecimal digits of a `\u` escape. -/
def hexEscape : Reader Nat := do
  let c ← get
  if c.pos + 4 ≤ c.text.size then
    let ds := (c.text.extract c.pos (c.pos + 4)).toList
    set { c with pos := c.pos + 4 }
    let hexv (b : UInt8) : Option Nat :=
      if isDigit b then some (digitValue b)
      else if 97 ≤ b && b ≤ 102 then some ((b - 87).toNat)
      else if 65 ≤ b && b ≤ 70 then some ((b - 55).toNat)
      else none
    match ds.mapM hexv with
    | some [a, b, d, e] => pure (((a * 16 + b) * 16 + d) * 16 + e)
    | _ => fail .invalidEscape
  else
    set { c with pos := c.text.size }
    fail .eofWhileString

/-- The next byte of a string, failing at the end of the text. -/
def nextInString : Reader UInt8 := do
  match ← next? with
  | some b => pure b
  | none => fail .eofWhileString

/-- The next byte of a string, not consumed, failing at the end of the text. -/
def peekInString : Reader UInt8 := do
  match ← peek? with
  | some b => pure b
  | none => fail .eofWhileString

/-- Reads a `\u` escape (after the `u`), joining a surrogate pair into one code point. -/
def unicodeEscape : Reader (List UInt8) := do
  let n ← hexEscape
  if 0xDC00 ≤ n ∧ n ≤ 0xDFFF then fail .loneLeadingSurrogate
  if n < 0xD800 ∨ n > 0xDBFF then return utf8 n
  let backslash ← peekInString
  bump
  if backslash != 92 then fail .unexpectedEndOfHexEscape
  let u ← peekInString
  bump
  if u != 117 then fail .unexpectedEndOfHexEscape
  let n2 ← hexEscape
  if n2 < 0xDC00 ∨ n2 > 0xDFFF then fail .loneLeadingSurrogate
  return utf8 ((((n - 0xD800) * 1024) ||| (n2 - 0xDC00)) + 0x10000)

/-- Reads an escape after its backslash. -/
def escape : Reader (List UInt8) := do
  let b ← nextInString
  if b == 34 then pure [34]
  else if b == 92 then pure [92]
  else if b == 47 then pure [47]
  else if b == 98 then pure [8]
  else if b == 102 then pure [12]
  else if b == 110 then pure [10]
  else if b == 114 then pure [13]
  else if b == 116 then pure [9]
  else if b == 117 then unicodeEscape
  else fail .invalidEscape

/-- Reads the rest of a string after its opening quote. -/
def stringBody : Nat → Array UInt8 → Reader String
  | 0, _ => fail .eofWhileString
  | fuel + 1, acc => do
    match ← next? with
    | none => fail .eofWhileString
    | some b =>
      if b == 34 then pure ((String.fromUTF8? (ByteArray.mk acc)).getD "")
      else if b == 92 then
        let bytes ← escape
        stringBody fuel (acc ++ bytes.toArray)
      else if b < 32 then fail .controlCharacter
      else stringBody fuel (acc.push b)

/-- Reads a string after its opening quote. -/
def string : Reader String := do
  stringBody (← left) #[]

/-- Skips an escape after its backslash, checking only its form. -/
def skipEscape : Reader Unit := do
  let b ← nextInString
  if b == 34 || b == 92 || b == 47 || b == 98 || b == 102 || b == 110 || b == 114 || b == 116 then
    pure ()
  else if b == 117 then
    let _ ← hexEscape
  else fail .invalidEscape

/-- Skips the rest of a string after its opening quote. -/
def skipStringBody : Nat → Reader Unit
  | 0 => fail .eofWhileString
  | fuel + 1 => do
    match ← peek? with
    | none => fail .eofWhileString
    | some b =>
      if b == 34 then bump
      else if b == 92 then
        bump
        skipEscape
        skipStringBody fuel
      else if b < 32 then fail .controlCharacter
      else
        bump
        skipStringBody fuel

/-! ### Skipping a value -/

/-- Skips a number after its sign, checking only its form. -/
def skipNumber : Reader Unit := do
  let b := (← next?).getD 0
  if b == 48 then
    if isDigit (← peekOrNull) then failPeek .invalidNumber
  else if isDigit b then
    let _ ← skipDigits (← left)
  else fail .invalidNumber
  let b ← peekOrNull
  let skipExponent : Reader Unit := do
    bump
    let s ← peekOrNull
    if s == 43 || s == 45 then bump
    let d := (← next?).getD 0
    if !isDigit d then fail .invalidNumber
    let _ ← skipDigits (← left)
  if b == 46 then
    bump
    let n ← skipDigits (← left)
    if n = 0 then failPeek .invalidNumber
    let e ← peekOrNull
    if e == 101 || e == 69 then skipExponent
  else if b == 101 || b == 69 then skipExponent

/-- Skips one value of any shape, keeping the open arrays and objects on a stack; nesting
is not limited here. -/
def skipValue : Reader Unit := do
  loop (← left) none []
where
  /-- After a complete value: closes what ends here and finds the frame of the next slot,
  `none` when the outermost value is done. -/
  close : Nat → Bool → UInt8 → List UInt8 → Reader (Option (UInt8 × List UInt8))
    | 0, _, _, _ => fail .eofWhileValue
    | fuel + 1, acceptComma, frame, stack => do
      match ← skipBlank with
      | none => if frame == 91 then failPeek .eofWhileList else failPeek .eofWhileObject
      | some b =>
        if b == 44 && acceptComma then
          bump
          pure (some (frame, stack))
        else if (b == 93 && frame == 91) || (b == 125 && frame == 123) then
          bump
          match stack with
          | [] => pure none
          | f :: rest => close fuel true f rest
        else if acceptComma then
          if frame == 91 then failPeek .expectedListCommaOrEnd
          else failPeek .expectedObjectCommaOrEnd
        else pure (some (frame, stack))
  /-- Skips values; `enclosing` is the innermost open bracket, `stack` the ones around it. -/
  loop : Nat → Option UInt8 → List UInt8 → Reader Unit
    | 0, _, _ => fail .eofWhileValue
    | fuel + 1, enclosing, stack => do
      let b ← match ← skipBlank with
        | none => failPeek .eofWhileValue
        | some b => pure b
      let opened : Option UInt8 ←
        if b == 110 then do
          bump
          word [117, 108, 108]
          pure none
        else if b == 116 then do
          bump
          word [114, 117, 101]
          pure none
        else if b == 102 then do
          bump
          word [97, 108, 115, 101]
          pure none
        else if b == 45 then do
          bump
          skipNumber
          pure none
        else if isDigit b then do
          skipNumber
          pure none
        else if b == 34 then do
          bump
          skipStringBody (← left)
          pure none
        else if b == 91 || b == 123 then do
          bump
          pure (some b)
        else failPeek .expectedValue
      let start : Option (Bool × UInt8 × List UInt8) :=
        match opened, enclosing, stack with
        | some f, some e, _ => some (false, f, e :: stack)
        | some f, none, _ => some (false, f, stack)
        | none, some e, _ => some (true, e, stack)
        | none, none, f :: rest => some (true, f, rest)
        | none, none, [] => none
      match start with
      | none => pure ()
      | some (acceptComma, frame, stack) =>
        match ← close (← left) acceptComma frame stack with
        | none => pure ()
        | some (frame, stack) =>
          if frame == 123 then
            match ← skipBlank with
            | some 34 => bump
            | some _ => failPeek .keyMustBeString
            | none => failPeek .eofWhileObject
            skipStringBody (← left)
            match ← skipBlank with
            | some 58 => bump
            | some _ => failPeek .expectedColon
            | none => failPeek .eofWhileObject
          loop fuel (some frame) stack

/-! ### Values -/

def endArray : Reader Unit := do
  match ← skipBlank with
  | some 93 => bump
  | some 44 =>
    bump
    match ← skipBlank with
    | some 93 => failPeek .trailingComma
    | _ => failPeek .trailingCharacters
  | some _ => failPeek .trailingCharacters
  | none => failPeek .eofWhileList

def endObject : Reader Unit := do
  match ← skipBlank with
  | some 125 => bump
  | some 44 => failPeek .trailingComma
  | some _ => failPeek .trailingCharacters
  | none => failPeek .eofWhileObject

/-- Finds the start of the next array item: `none` at the closing bracket. -/
def nextItem (first : Bool) : Reader (Option Unit) := do
  let b ← match ← skipBlank with
    | some 93 => return none
    | some 44 =>
      if first then pure (some 44)
      else do
        bump
        skipBlank
    | some b => if first then pure (some b) else failPeek .expectedListCommaOrEnd
    | none => failPeek .eofWhileList
  match b with
  | some 93 => failPeek .trailingComma
  | some _ => pure (some ())
  | none => failPeek .eofWhileValue

/-- Reads the key of the next object entry: `none` at the closing brace. -/
def nextKey (first : Bool) : Reader (Option String) := do
  let b ← match ← skipBlank with
    | some 125 => return none
    | some 44 =>
      if first then pure (some 44)
      else do
        bump
        skipBlank
    | some b => if first then pure (some b) else failPeek .expectedObjectCommaOrEnd
    | none => failPeek .eofWhileObject
  match b with
  | some 34 => do
    bump
    some <$> string
  | some 125 => failPeek .trailingComma
  | some _ => failPeek .keyMustBeString
  | none => failPeek .eofWhileValue

def colon : Reader Unit := do
  match ← skipBlank with
  | some 58 => bump
  | some _ => failPeek .expectedColon
  | none => failPeek .eofWhileObject

/-- Takes one level of the nesting allowance before an array or object is entered. -/
def enter (depth : Nat) : Reader Nat := do
  if depth ≤ 1 then failPeek .recursionLimit
  bump
  pure (depth - 1)

mutual

/-- Reads a value; `depth` is the nesting allowance left. -/
def value (depth : Nat) : Nat → Reader Value
  | 0 => fail .eofWhileValue
  | fuel + 1 => do
    match ← skipBlank with
    | none => failPeek .eofWhileValue
    | some b =>
      if b == 110 then do
        bump
        word [117, 108, 108]
        pure .null
      else if b == 116 then do
        bump
        word [114, 117, 101]
        pure (.bool true)
      else if b == 102 then do
        bump
        word [97, 108, 115, 101]
        pure (.bool false)
      else if b == 45 then do
        bump
        .num <$> number false
      else if isDigit b then .num <$> number true
      else if b == 34 then do
        bump
        .str <$> string
      else if b == 91 then
        let d ← enter depth
        let xs ← items d fuel true
        endArray
        pure (.arr xs)
      else if b == 123 then
        let d ← enter depth
        let kvs ← entries d fuel true []
        endObject
        pure (.obj kvs)
      else failPeek .expectedValue

/-- Reads the items of an array up to its closing bracket. -/
def items (depth : Nat) : Nat → Bool → Reader (List Value)
  | 0, _ => fail .eofWhileList
  | fuel + 1, first => do
    match ← nextItem first with
    | none => pure []
    | some () =>
      let v ← value depth fuel
      let rest ← items depth fuel false
      pure (v :: rest)

/-- Reads the entries of an object up to its closing brace; a later entry for a key
replaces an earlier one. -/
def entries (depth : Nat) : Nat → Bool → List (String × Value) → Reader (List (String × Value))
  | 0, _, _ => fail .eofWhileObject
  | fuel + 1, first, acc => do
    match ← nextKey first with
    | none => pure acc
    | some k =>
      colon
      let v ← value depth fuel
      entries depth fuel false (Fields.insert k v acc)

end

/-- The nesting allowance of a reader. -/
def depthLimit : Nat := 128

/-- Fails if anything but blanks follows. -/
def finish : Reader Unit := do
  match ← skipBlank with
  | some _ => failPeek .trailingCharacters
  | none => pure ()

/-- Runs a reader over the whole of a text. -/
def run {α : Type} (r : Reader α) (text : ByteArray) : Except Error α :=
  (do let a ← r; finish; pure a).run' ⟨text, 0⟩

end Reader

/-- Reads a text holding exactly one JSON value. Along any chain of nested reads, a value
takes a byte before the items or entries inside it are read, and an item or entry after the
first takes one before its value, so every two steps of a chain take a byte: twice the
length of the text, plus two, is fuel that the text runs out before. -/
def Value.ofText (s : String) : Except Error Value :=
  Reader.run (do Reader.value Reader.depthLimit (2 * (← Reader.left) + 2)) s.toUTF8

end Coordination.Json
