/-!
Node paths: absolute, slash-separated names such as `/app/config`. A path is well formed
when it starts with a slash, and, unless it is the root `/`, neither ends with a slash nor
holds an empty segment nor a segment `.` or `..`. The parent of a path is the text before
its last slash (the root for a top-level path), its name the text after it, and joining
puts a slash between a parent and a name.
-/

namespace Coordination.Path

/-- Why a text is not a well-formed path, in the order the checks are made. -/
inductive Defect where
  | notAbsolute
  | trailingSlash
  | emptySegment
  | relativeSegment
  deriving DecidableEq, Repr

/-- The reason given for a defect. -/
def Defect.reason : Defect → String
  | .notAbsolute => "path must start with /"
  | .trailingSlash => "path must not end with /"
  | .emptySegment => "empty path segment"
  | .relativeSegment => "relative path segment"

/-- The pieces of a text between its slashes, as `split` cuts it: `/a/b` gives the empty
piece, `a` and `b`. -/
def pieces : List Char → List (List Char)
  | [] => [[]]
  | c :: rest =>
    match pieces rest with
    | [] => [[c]]
    | seg :: segs => if c = '/' then [] :: seg :: segs else (c :: seg) :: segs

/-- Whether two slashes stand next to each other. -/
def hasDoubleSlash : List Char → Bool
  | '/' :: '/' :: _ => true
  | _ :: rest => hasDoubleSlash rest
  | [] => false

/-- Whether a piece is `.` or `..`. -/
def isDots (seg : List Char) : Bool := seg = ['.'] || seg = ['.', '.']

/-- The first defect of the characters of a text as a path, if any. -/
def defectOf (cs : List Char) : Option Defect :=
  if cs.head? ≠ some '/' then some .notAbsolute
  else if cs = ['/'] then none
  else if cs.getLast? = some '/' then some .trailingSlash
  else if hasDoubleSlash cs then some .emptySegment
  else if (pieces cs).any isDots then some .relativeSegment
  else none

/-- The first defect of a text as a path, if any. -/
def defect? (p : String) : Option Defect := defectOf p.toList

/-- Whether a text is a well-formed path. -/
def IsValid (p : String) : Prop := defect? p = none

instance (p : String) : Decidable (IsValid p) := inferInstanceAs (Decidable (_ = _))

/-- The characters before the last slash, if there is a slash. -/
def beforeLastSlash (cs : List Char) : Option (List Char) :=
  match cs.reverse.dropWhile (· ≠ '/') with
  | [] => none
  | _ :: rest => some rest.reverse

/-- The parent of a path: `none` for the root and for a text without a slash, the root
when the last slash is the first character. -/
def parent (p : String) : Option String :=
  if p.toList = ['/'] then none
  else
    match beforeLastSlash p.toList with
    | none => none
    | some [] => some "/"
    | some cs => some (String.ofList cs)

/-- The last segment of a path: the text after its last slash (all of it without one). -/
def name (p : String) : String :=
  String.ofList (p.toList.reverse.takeWhile (· ≠ '/')).reverse

/-- A child name under a parent path. -/
def join (parentPath child : String) : String :=
  if parentPath.toList = ['/'] then "/" ++ child else parentPath ++ "/" ++ child

example : defect? "/a/../b" = some .relativeSegment := by decide +kernel
example : parent "/a/b" = some "/a" ∧ parent "/a" = some "/" ∧ parent "/" = none := by
  decide +kernel
example : name "/a/bc" = "bc" ∧ join "/" "x" = "/x" ∧ join "/a" "x" = "/a/x" := by
  decide +kernel

end Coordination.Path
