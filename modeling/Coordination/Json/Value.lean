import Coordination.Decimal.Shortest

/-!
JSON values. A number keeps the class it was read as: an unsigned integer up to
`2^64 - 1`, a negative integer down to `-2^63`, or a binary64 number kept by its bits.
An object maps each key once, and its entries stay sorted by key, so writing it lists the
keys in order.
-/

namespace Coordination.Json

/-- The largest unsigned integer a number may hold. -/
def maxUnsigned : Nat := Nat.pow 2 64 - 1

/-- A JSON number in the class it was read as. -/
inductive Number where
  /-- A non-negative integer, at most `maxUnsigned`. -/
  | nat (n : Nat)
  /-- The negative integer `-n`, with `1 ≤ n ≤ 2^63`. -/
  | neg (n : Nat)
  /-- A binary64 number, by its bits. -/
  | float (bits : UInt64)
  deriving DecidableEq, Repr, Inhabited

/-- A JSON value; object entries are sorted by key and keys are distinct. -/
inductive Value where
  | null
  | bool (b : Bool)
  | num (n : Number)
  | str (s : String)
  | arr (xs : List Value)
  | obj (kvs : List (String × Value))
  deriving Repr, Inhabited

/-- The entry list with `k` mapped to `v`: an existing entry for `k` is replaced in place,
otherwise the entry goes before the first larger key. -/
def Fields.insert (k : String) (v : Value) : List (String × Value) → List (String × Value)
  | [] => [(k, v)]
  | (k', v') :: rest =>
    if k = k' then (k, v) :: rest
    else if k < k' then (k, v) :: (k', v') :: rest
    else (k', v') :: Fields.insert k v rest

def Fields.get? (k : String) : List (String × Value) → Option Value
  | [] => none
  | (k', v) :: rest => if k = k' then some v else Fields.get? k rest

/-- The entry list without key `k`. -/
def Fields.erase (k : String) : List (String × Value) → List (String × Value)
  | [] => []
  | (k', v) :: rest => if k = k' then rest else (k', v) :: Fields.erase k rest

/-- Builds an object from entries in any order; a later entry for a key wins. -/
def Fields.ofList (kvs : List (String × Value)) : List (String × Value) :=
  kvs.foldl (fun acc (k, v) => Fields.insert k v acc) []

/-- The value of key `k` in an object; `none` for other values. -/
def Value.field? (v : Value) (k : String) : Option Value :=
  match v with
  | .obj kvs => Fields.get? k kvs
  | _ => none

def Value.isNull : Value → Bool
  | .null => true
  | _ => false

/-- How numbers are written in text: positionally for first-digit exponents from -5 to 15,
otherwise with a signed exponent written without leading zeros. -/
def numberStyle : Decimal.Style := ⟨-5, 15, true, 1⟩

/-- The text of a number. -/
def Number.text : Number → String
  | .nat n => toString n
  | .neg n => "-" ++ toString n
  | .float bits => numberStyle.ofBits bits

end Coordination.Json
