import Coordination.Json.Value

/-!
Layering one JSON value over another. Two objects merge key by key: a key whose new value
is `null` keeps the old entry, a key present on both sides merges recursively, any other
key takes the new value. In every other case the new value replaces the old one, so
`null` on top gives `null`.
-/

namespace Coordination.Json

mutual

/-- `merge base top`: `top` layered over `base`. -/
def merge : Value → Value → Value
  | .obj base, .obj top => .obj (mergeFields base top)
  | _, top => top

/-- Layers the entries of `top`, in order, over the entries of `base`. -/
def mergeFields (base : List (String × Value)) : List (String × Value) → List (String × Value)
  | [] => base
  | (k, v) :: rest =>
    if v.isNull then mergeFields base rest
    else
      let merged := match Fields.get? k base with
        | some old => merge old v
        | none => v
      mergeFields (Fields.insert k merged base) rest

end

end Coordination.Json
