import Coordination.Json.Value

/-!
Writing JSON text: compact, object keys in their stored (sorted) order, strings with a
backslash before the quote and the backslash, short escapes for backspace, form feed,
line feed, carriage return and tab, `\u00xx` for the other control characters, and every
other character as it is.
-/

namespace Coordination.Json

/-- Lower-case hexadecimal digit of a number below 16. -/
def hexDigit (n : Nat) : Char := Nat.digitChar n

/-- The written form of one character of a string. -/
def escapeChar (c : Char) : List Char :=
  if c = '"' then ['\\', '"']
  else if c = '\\' then ['\\', '\\']
  else if c = '\x08' then ['\\', 'b']
  else if c = '\x0c' then ['\\', 'f']
  else if c = '\n' then ['\\', 'n']
  else if c = '\r' then ['\\', 'r']
  else if c = '\t' then ['\\', 't']
  else if c.toNat < 0x20 then ['\\', 'u', '0', '0', hexDigit (c.toNat / 16), hexDigit (c.toNat % 16)]
  else [c]

/-- A string as JSON text. -/
def writeString (s : String) : String :=
  String.ofList ('"' :: (s.toList.flatMap escapeChar ++ ['"']))

/-- A number as JSON text; a float that is not finite is written as `null`. -/
def writeNumber : Number → String
  | .float bits =>
    let f := Float.ofBits bits
    if f.isNaN || f.isInf then "null" else Number.text (.float bits)
  | n => n.text

mutual

/-- A value as compact JSON text. -/
def Value.write : Value → String
  | .null => "null"
  | .bool true => "true"
  | .bool false => "false"
  | .num n => writeNumber n
  | .str s => writeString s
  | .arr xs => "[" ++ writeItems xs ++ "]"
  | .obj kvs => "\x7b" ++ writeEntries kvs ++ "\x7d"

/-- Array items separated by commas. -/
def writeItems : List Value → String
  | [] => ""
  | [v] => v.write
  | v :: rest => v.write ++ "," ++ writeItems rest

/-- Object entries separated by commas. -/
def writeEntries : List (String × Value) → String
  | [] => ""
  | [(k, v)] => writeString k ++ ":" ++ v.write
  | (k, v) :: rest => writeString k ++ ":" ++ v.write ++ "," ++ writeEntries rest

end

end Coordination.Json
