import BlockJournal.Error

/-!
# Record Pools

How many revoke records are alive.

Every record in every table that shares a pool is charged to it. A pool with a
limit refuses charges beyond it, which is how running out of memory comes
about. A table gives back exactly what it was charged, so a pool is never asked
for more than is in use; should that happen nothing is given back, and the
pool remembers it in `overdrawn`.

## Main definitions

* `Pool`: The accounts.
* `Pool.charge`: One more record.
* `Pool.release`: Some records fewer.
-/

namespace BlockJournal

/-- The accounts of revoke records. -/
structure Pool where
  /-- The number of records that may be alive at once, if there is a limit. -/
  limit : Option Nat
  /-- The number of records alive. -/
  inUse : Nat
  /-- The largest number of records that were ever alive at once. -/
  highWater : Nat
  /-- The number of charges refused. -/
  failures : UInt64
  /-- Whether more was ever given back than was in use. -/
  overdrawn : Bool
  deriving DecidableEq, Repr, Inhabited

namespace Pool

/-- A pool with no records alive. -/
def new (limit : Option Nat) : Pool := ⟨limit, 0, 0, 0, false⟩

/-- The number of records a pool admits. Without a limit of its own it can
    count as far as a word goes. -/
def capacity (p : Pool) : Nat := p.limit.getD (UInt64.size - 1)

/-- Charge one record. -/
def charge (p : Pool) : Except Error Unit × Pool :=
  if p.inUse < p.capacity then
    (.ok (), { p with inUse := p.inUse + 1, highWater := max p.highWater (p.inUse + 1) })
  else (.error (.poolExhausted p.inUse), { p with failures := p.failures + 1 })

/-- Give back some records. -/
def release (p : Pool) (count : Nat) : Pool :=
  if count ≤ p.inUse then { p with inUse := p.inUse - count } else { p with overdrawn := true }

end Pool

end BlockJournal
