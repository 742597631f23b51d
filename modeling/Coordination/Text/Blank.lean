/-!
Blank characters: the code points with the Unicode property White_Space, and trimming
them from both ends of a text. Settings values and environment overrides are compared
after this trim, so a value made only of such characters counts as empty.
-/

namespace Coordination.Text

/-- The 25 code points of White_Space: the ASCII controls tab to carriage return, space,
next line, no-break space, ogham space mark, the spaces U+2000 to U+200A, the line and
paragraph separators, the narrow no-break space, the medium mathematical space and the
ideographic space. -/
def isBlank (c : Char) : Bool :=
  let n := c.toNat
  (0x09 ≤ n && n ≤ 0x0D) || n == 0x20 || n == 0x85 || n == 0xA0 || n == 0x1680 ||
    (0x2000 ≤ n && n ≤ 0x200A) || n == 0x2028 || n == 0x2029 || n == 0x202F ||
    n == 0x205F || n == 0x3000

/-- The characters left after dropping blanks from both ends. -/
def trimBlankList (cs : List Char) : List Char :=
  ((cs.dropWhile isBlank).reverse.dropWhile isBlank).reverse

/-- A text without its leading and trailing blanks. -/
def trimBlank (s : String) : String :=
  String.ofList (trimBlankList s.toList)

example : trimBlank " \t x y \n" = "x y" := by decide
example : trimBlank "　" = "" := by decide

end Coordination.Text
