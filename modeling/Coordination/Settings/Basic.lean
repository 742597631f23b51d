import Coordination.Duration
import Coordination.Text.Blank

/-!
Client settings: where to connect, the session timeout, the pause between attempts to
recover a session, and an optional bound on how long an operation waits for a connection.
All times are whole milliseconds. A settings record is valid when a given connect string is
not blank and the two timeouts are positive; it names a target exactly when it has a
connect string.
-/

namespace Coordination

/-- Client settings. -/
structure Settings where
  connectString : Option String
  sessionTimeoutMs : Nat
  reconnectIntervalMs : Nat
  operationTimeoutMs : Option Nat
  deriving DecidableEq, Repr, Inhabited

/-- Where a client connects: a connect string and the session timeout asked for. -/
structure Target where
  connectString : String
  sessionTimeout : Duration
  deriving DecidableEq, Repr, Inhabited

/-- What a supervisor reads from the settings once: the pause between recovery attempts and
the default bound on waiting for a connection. -/
structure Options where
  reconnectInterval : Duration
  operationTimeout : Option Duration
  deriving DecidableEq, Repr, Inhabited

/-- Why settings could not be loaded. -/
inductive SettingsError where
  /-- The file could not be read as text. -/
  | unreadable (reason : String)
  /-- The text is not JSON of the settings' shape; the message says where. -/
  | malformed (message : String)
  /-- A value is out of its allowed range. -/
  | invalidValue (message : String)
  deriving DecidableEq, Repr

/-- The message of a settings error. -/
def SettingsError.message : SettingsError → String
  | .unreadable r => "failed to read settings file: " ++ r
  | .malformed m => "failed to parse settings JSON: " ++ m
  | .invalidValue m => "invalid settings value: " ++ m

namespace Settings

/-- The session timeout when none is given: ten seconds. -/
def defaultSessionTimeoutMs : Nat := 10000

/-- The pause between recovery attempts when none is given: twenty seconds. -/
def defaultReconnectIntervalMs : Nat := 20000

/-- No target, the default timeouts and no operation bound. -/
def defaults : Settings :=
  ⟨none, defaultSessionTimeoutMs, defaultReconnectIntervalMs, none⟩

/-- The target named by the settings, if they have a connect string. -/
def target (s : Settings) : Option Target :=
  s.connectString.map fun url => ⟨url, Duration.ofMillis s.sessionTimeoutMs⟩

/-- The supervisor options of the settings. -/
def options (s : Settings) : Options :=
  ⟨Duration.ofMillis s.reconnectIntervalMs, s.operationTimeoutMs.map Duration.ofMillis⟩

/-- The first rule the settings break, if any: a blank connect string, then a zero session
timeout, then a zero reconnect interval. -/
def validate (s : Settings) : Except SettingsError Unit :=
  if s.connectString.any (fun c => (Text.trimBlank c).isEmpty) then
    .error (.invalidValue "connectString must not be empty")
  else if s.sessionTimeoutMs = 0 then
    .error (.invalidValue "sessionTimeoutMs must be positive")
  else if s.reconnectIntervalMs = 0 then
    .error (.invalidValue "reconnectIntervalMs must be positive")
  else .ok ()

end Settings

end Coordination
