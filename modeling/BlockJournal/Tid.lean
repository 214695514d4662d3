/-!
# Transaction Ids

Transaction ids are 32-bit words that count up by one and wrap.

Two ids are compared by the distance from one to the other and not by their
values: `a` comes after `b` if fewer than `2 ^ 31` steps of `Tid.next` lead
from `b` to `a`. Inside a window of fewer than `2 ^ 31` ids that is the order
in which the transactions ran, also where the window straddles the wrap. Ids
exactly half the circle apart come after neither.

## Main definitions

* `Tid`: A transaction id.
* `Tid.next`: The id of the following transaction.
* `Tid.stepsFrom`: How far an id lies ahead of another.
* `Tid.halfCircle`: How many ids come after a given one.
* `Tid.isAfter`, `Tid.isAtOrAfter`, `Tid.compare`: The order by distance.
* `Tid.latest`: The later of two ids.
-/

namespace BlockJournal

/-- The id of a transaction. -/
structure Tid where
  /-- The id as a word. -/
  val : UInt32
  deriving DecidableEq, Repr, Inhabited

namespace Tid

/-- The id with a given number, modulo the width of an id. -/
def ofNat (n : Nat) : Tid := ⟨UInt32.ofNat n⟩

/-- The id as a number. -/
def toNat (a : Tid) : Nat := a.val.toNat

instance : ToString Tid := ⟨fun a => toString a.toNat⟩

/-- The id of the following transaction. -/
def next (a : Tid) : Tid := ⟨a.val + 1⟩

/-- How many steps lead from `b` up to `a`. -/
def stepsFrom (a b : Tid) : Nat := (a.val - b.val).toNat

/-- The number of ids that come after a given one. -/
def halfCircle : Nat := UInt32.size / 2

/-- The test that `a` is later than `b`. -/
def isAfter (a b : Tid) : Bool := 0 < a.stepsFrom b && a.stepsFrom b < halfCircle

/-- The test that `a` is `b` or later. -/
def isAtOrAfter (a b : Tid) : Bool := a.stepsFrom b < halfCircle

/-- The order of two ids by distance. -/
def compare (a b : Tid) : Ordering :=
  if a = b then .eq else if a.isAfter b then .gt else .lt

/-- The later of two ids, and the first where neither is later. -/
def latest (a b : Tid) : Tid := if b.isAfter a then b else a

end Tid

end BlockJournal
