import Coordination.Json.Value
import Coordination.Text.Escaped

/-!
What goes wrong when JSON text is read or a value is taken apart as a record: syntax
problems found at a position of the text, and mismatches between a value and the type
that was expected of it. `Error.message` gives the one text of each.
-/

namespace Coordination.Json

/-- The kind of value found where another was expected. -/
inductive Found where
  | null
  | bool (b : Bool)
  | unsigned (n : Nat)
  | signed (n : Int)
  | float (bits : UInt64)
  | string (s : String)
  | sequence
  | map
  deriving DecidableEq, Repr

/-- How a found value is described. -/
def Found.text : Found → String
  | .null => "null"
  | .bool b => "boolean `" ++ (if b then "true" else "false") ++ "`"
  | .unsigned n => "integer `" ++ toString n ++ "`"
  | .signed n => "integer `" ++ toString n ++ "`"
  | .float bits => "floating point `" ++ numberStyle.ofBits bits ++ "`"
  | .string s => "string " ++ Text.quoted s
  | .sequence => "sequence"
  | .map => "map"

/-- The kind of a number as a found value. -/
def Number.found : Number → Found
  | .nat n => .unsigned n
  | .neg n => .signed (-(n : Int))
  | .float bits => .float bits

/-- The kind of a value as a found value. -/
def Value.found : Value → Found
  | .null => .null
  | .bool b => .bool b
  | .num n => n.found
  | .str s => .string s
  | .arr _ => .sequence
  | .obj _ => .map

/-- A problem met while reading text or taking a value apart. -/
inductive Problem where
  | eofWhileList
  | eofWhileObject
  | eofWhileString
  | eofWhileValue
  | expectedColon
  | expectedListCommaOrEnd
  | expectedObjectCommaOrEnd
  | expectedIdent
  | expectedValue
  | invalidEscape
  | invalidNumber
  | numberOutOfRange
  | controlCharacter
  | keyMustBeString
  | loneLeadingSurrogate
  | trailingComma
  | trailingCharacters
  | unexpectedEndOfHexEscape
  | recursionLimit
  /-- A value of another type than `expected` was found. -/
  | invalidType (found : Found) (expected : String)
  /-- A value of the right type but outside what `expected` allows was found. -/
  | invalidValue (found : Found) (expected : String)
  /-- A sequence or map of `len` entries held more than `expected` allows. -/
  | invalidLength (len : Nat) (expected : String)
  /-- A record field was given twice. -/
  | duplicateField (name : String)
  deriving DecidableEq, Repr

/-- The text of a problem. -/
def Problem.text : Problem → String
  | .eofWhileList => "EOF while parsing a list"
  | .eofWhileObject => "EOF while parsing an object"
  | .eofWhileString => "EOF while parsing a string"
  | .eofWhileValue => "EOF while parsing a value"
  | .expectedColon => "expected `:`"
  | .expectedListCommaOrEnd => "expected `,` or `]`"
  | .expectedObjectCommaOrEnd => "expected `,` or `\x7d`"
  | .expectedIdent => "expected ident"
  | .expectedValue => "expected value"
  | .invalidEscape => "invalid escape"
  | .invalidNumber => "invalid number"
  | .numberOutOfRange => "number out of range"
  | .controlCharacter => "control character (\\u0000-\\u001F) found while parsing a string"
  | .keyMustBeString => "key must be a string"
  | .loneLeadingSurrogate => "lone leading surrogate in hex escape"
  | .trailingComma => "trailing comma"
  | .trailingCharacters => "trailing characters"
  | .unexpectedEndOfHexEscape => "unexpected end of hex escape"
  | .recursionLimit => "recursion limit exceeded"
  | .invalidType f e => "invalid type: " ++ f.text ++ ", expected " ++ e
  | .invalidValue f e => "invalid value: " ++ f.text ++ ", expected " ++ e
  | .invalidLength n e => "invalid length " ++ toString n ++ ", expected " ++ e
  | .duplicateField n => "duplicate field `" ++ n ++ "`"

/-- A place in a text: lines count from 1, columns count the bytes before the place on its
line. -/
structure Place where
  line : Nat
  column : Nat
  deriving DecidableEq, Repr

/-- A problem, with the place of the text where it was found when there is one. -/
structure Error where
  problem : Problem
  place : Option Place
  deriving DecidableEq, Repr

/-- The text of an error: the problem, then its place. -/
def Error.message (e : Error) : String :=
  match e.place with
  | none => e.problem.text
  | some p => e.problem.text ++ " at line " ++ toString p.line ++ " column " ++ toString p.column

end Coordination.Json
