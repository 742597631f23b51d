/-!
Node metadata and creation modes. A node records the transaction that created it and the
one that last changed its data (signed 64-bit numbers), how often its data and its child list
changed, the session owning it (0 for none), the length of its data and its number of children.
A node is created persistent or ephemeral (removed with its session), and sequential modes
append a counter to the requested name.
-/

namespace Coordination

/-- How a node is created. -/
structure Mode where
  /-- Removed when the creating session ends. -/
  ephemeral : Bool
  /-- A ten-digit counter is appended to the requested name. -/
  sequential : Bool
  deriving DecidableEq, Repr, Inhabited

namespace Mode

/-- A node that outlives its session, under its requested name. -/
def persistent : Mode := ⟨false, false⟩

/-- A persistent node with a counter appended. -/
def persistentSequential : Mode := ⟨false, true⟩

/-- A node removed with its session. -/
def ephemeralPlain : Mode := ⟨true, false⟩

/-- An ephemeral node with a counter appended. -/
def ephemeralSequential : Mode := ⟨true, true⟩

end Mode

/-- Metadata of a node. -/
structure Stat where
  /-- Transaction that created the node. -/
  czxid : Int
  /-- Transaction that last changed its data. -/
  mzxid : Int
  /-- Number of data changes. -/
  version : Int
  /-- Number of child-list changes. -/
  cversion : Int
  /-- Owning session, 0 for none. -/
  ephemeralOwner : Nat
  /-- Bytes of data. -/
  dataLength : Nat
  /-- Number of children. -/
  numChildren : Nat
  deriving DecidableEq, Repr, Inhabited

/-- What a signed 32-bit counter holds of an integer: the integer modulo 2^32, in
[-2^31, 2^31). Versions and child versions are such counters, bumped without overflow checks,
so one past 2^31 - 1 is -2^31. -/
def wrapI32 (z : Int) : Int := z.bmod 4294967296

/-- What a signed 64-bit counter holds of an integer: the integer modulo 2^64, in
[-2^63, 2^63). Transaction numbers are such counters, bumped without overflow checks. -/
def wrapI64 (z : Int) : Int := z.bmod 18446744073709551616

/-- What an unsigned 32-bit count holds of a number: the number modulo 2^32. Data lengths and
child counts are such counts. -/
def wrapU32 (n : Nat) : Nat := n % 4294967296

/-- Whether a node is tied to a session. -/
def Stat.isEphemeral (s : Stat) : Bool := s.ephemeralOwner != 0

end Coordination
