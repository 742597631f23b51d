import Coordination.Settings.Decode
import Coordination.Json.Merge

/-!
Loading settings in layers: the defaults, then a settings file (JSON, merged key by key
over the defaults, `null` keeping the default), then environment variables, then the
validity rules. An environment value for a timeout counts only if, without its blanks, it
is an unsigned decimal from 1 to 3600000; the connect string counts if it is not blank.
-/

namespace Coordination.Settings

/-- The number written by a text of ASCII digits, if every character is one and there is at
least one; at most `2^64 - 1`. -/
def unsignedOfDigits (cs : List Char) : Option Nat :=
  if cs.isEmpty || !cs.all Char.isDigit then none
  else
    let n := cs.foldl (fun n c => 10 * n + (c.toNat - '0'.toNat)) 0
    if n ≤ Json.maxUnsigned then some n else none

/-- An unsigned integer in text: ASCII digits with an optional leading plus sign. -/
def unsignedOfText (s : String) : Option Nat :=
  match s.toList with
  | '+' :: rest => unsignedOfDigits rest
  | cs => unsignedOfDigits cs

/-- The unsigned integer written by a text, blanks around it ignored, if it lies between
`lo` and `hi`. -/
def boundedOfText (s : String) (lo hi : Nat) : Option Nat :=
  match unsignedOfText (Coordination.Text.trimBlank s) with
  | some n => if lo ≤ n ∧ n ≤ hi then some n else none
  | none => none

-- The environment variables that override the connect string and the three timeouts.
def urlVar : String := "ENSEMBLE_URL"

def sessionTimeoutVar : String := "ENSEMBLE_SESSION_TIMEOUT_MS"

def reconnectIntervalVar : String := "ENSEMBLE_RECONNECT_INTERVAL_MS"

def operationTimeoutVar : String := "ENSEMBLE_OPERATION_TIMEOUT_MS"

/-- The largest timeout an environment variable may set: one hour. -/
def maxEnvMillis : Nat := 3600000

/-- Settings with the environment's overrides applied; `env` looks a variable up. -/
def overrideBy (env : String → Option String) (s : Settings) : Settings :=
  let bounded (name : String) := (env name).bind fun v => boundedOfText v 1 maxEnvMillis
  let s := match env urlVar with
    | some v => if (Coordination.Text.trimBlank v).isEmpty then s else { s with connectString := some v }
    | none => s
  let s := match bounded sessionTimeoutVar with
    | some n => { s with sessionTimeoutMs := n }
    | none => s
  let s := match bounded reconnectIntervalVar with
    | some n => { s with reconnectIntervalMs := n }
    | none => s
  match bounded operationTimeoutVar with
  | some n => { s with operationTimeoutMs := some n }
  | none => s

/-- Loads settings from the bytes of a settings file, if there is one, and the environment. -/
def load (file : Option ByteArray) (env : String → Option String) : Except SettingsError Settings := do
  let merged ← match file with
    | none => pure (toValue defaults)
    | some bytes =>
      match String.fromUTF8? bytes with
      | none => throw (.unreadable "stream did not contain valid UTF-8")
      | some text =>
        match Json.Value.ofText text with
        | .ok user => pure (Json.merge (toValue defaults) user)
        | .error e => throw (.malformed e.message)
  let s ← match ofValue merged with
    | .ok s => pure s
    | .error e => throw (.malformed e.message)
  let s := overrideBy env s
  validate s
  pure s

end Coordination.Settings
