import BlockJournal.Proofs.Commit.Strikes
import BlockJournal.Proofs.Ring.Positions

/-!
# The Books of a Circular Log

A circular log that remembers what it did.

A log knows how many of its blocks are free, but neither which blocks it ever handed
out nor what was written to them, so nothing can be said in its terms about a block
that is not written over. A `Ledger` is a log with its books. It answers every call as
the log does, so a run with books is the run without them, and the books say what the
log did at each of its calls, in the middle of a commit as well. In the middle of a commit
the journal may be aborted, and the device may begin or stop to fail.

Releases are booked oldest first, and no more of them than there are blocks to release.

## Main definitions

* `RingOp`: What can be asked of a journal on a circular log and of its log.
* `Mount.runOps`: A mount after some operations.
* `Ledger`: A log with its books.
* `Ledger.taken`: The most recent of the blocks handed out.
* `Mount.bookOps`: A mount with books after some operations.

## Theorems

* `taken_of_cycled`: They are the ones that were not released.
* `Ledger.alike`: A log with books answers like a log.
* `unbooked_bookOps`: A run with books is the run without them.
-/

namespace BlockJournal

/-- What can be asked of a journal on a circular log, of its log and of its device. -/
inductive RingOp where
  -- The journal or its cache is called.
  | call (c : Call)
  -- A transaction is committed under strikes.
  | commitAmid (tid : Tid) (strikes : List Strikes) (last : List Strike)
  -- The log is asked for a descriptor.
  | request
  -- The descriptors of a transaction are waited for.
  | wait (tid : Tid)
  -- Blocks of the log are freed.
  | release (count : Nat)
  -- The device is made to refuse writes, or to stop doing so.
  | setFailing (failing : Bool)
  -- The journal is aborted.
  | abort
  deriving DecidableEq, Repr

/-- A write that reached the device. -/
structure Written where
  /-- How many blocks were handed out before the most recent one. -/
  time : Nat
  /-- The block written. -/
  block : BlockNumber
  /-- What was written to it. -/
  data : Bytes
  deriving DecidableEq, Repr

/-- A circular log with its books. -/
structure Ledger where
  /-- The log. -/
  log : RingLog
  /-- The blocks handed out, oldest first. -/
  handed : List BlockNumber
  /-- How many of them were released. -/
  released : Nat
  /-- The writes that reached the device, oldest first. -/
  written : List Written
  deriving DecidableEq, Repr

namespace Ledger

/-- The most recent of the blocks handed out, as many as are not free. -/
def taken (l : Ledger) : List BlockNumber :=
  l.handed.drop (l.handed.length - (l.log.capacity - l.log.free))

/-- As long as the log goes round, they are the ones that were not released. -/
theorem taken_of_cycled {l : Ledger} (h : l.log.Cycled l.handed l.released) :
    l.taken = l.handed.drop l.released := by
  have hfree := h.free_eq
  have hreleased := h.released_le
  rw [taken, ← hfree, Nat.add_sub_cancel_left, Nat.sub_sub_self hreleased]

/-- The log after something that is not booked. -/
def setLog (l : Ledger) (log : RingLog) : Ledger := { l with log := log }

/-- What is booked when a block is handed out. -/
def hand (l : Ledger) (block : Option BlockNumber) : Ledger :=
  { l with handed := l.handed ++ block.toList }

/-- What is booked when a buffer is to be written to its block. -/
def write (l : Ledger) (b : Buffer) : Ledger :=
  if (l.log.device.write b.block b.data).1.isOk then
    { l with written := l.written ++ [⟨l.handed.length - 1, b.block, b.data⟩] }
  else l

/-- What is booked when blocks are freed, oldest first. -/
def release (l : Ledger) (count : Nat) : Ledger :=
  { l with released := min (l.released + count) l.handed.length }

instance : DeviceLog Ledger where
  setFailing l failing := l.setLog (DeviceLog.setFailing l.log failing)

instance : LogService Ledger where
  forget l tid b := (LogService.forget l.log tid b).exchange l.setLog
  request l :=
    let reply := LogService.request l.log
    reply.exchange (l.hand (reply.value.map Prod.fst)).setLog
  file l tid id b := (LogService.file l.log tid id b).exchange l.setLog
  submit l id b := (LogService.submit l.log id b).exchange (l.write b).setLog

/-- A log with books answers like a log. -/
theorem alike : DeviceLog.Alike Ledger.log :=
  ⟨⟨fun _ _ _ => rfl, fun _ => rfl, fun _ _ _ _ => rfl, fun _ _ _ => rfl⟩, fun _ _ => rfl⟩

end Ledger

namespace Mount

/-- A mount after an operation. -/
def afterOp (m : Mount RingLog) : RingOp → Mount RingLog
  | .call c => m.after c
  | .commitAmid tid strikes last => (m.commitAmid tid strikes last).2
  | .request => m.request.2
  | .wait tid => (m.wait tid).2
  | .release count => m.releaseLog count
  | .setFailing failing => { m with log.device := m.log.device.setFailing failing }
  | .abort => m.abort

/-- A mount after some operations. -/
def runOps (m : Mount RingLog) (ops : List RingOp) : Mount RingLog := ops.foldl afterOp m

/-- A mount whose log begins to keep books. -/
def booked (m : Mount RingLog) : Mount Ledger := m.exchange fun log => ⟨log, [], 0, []⟩

/-- The mount without the books. -/
def unbooked (m : Mount Ledger) : Mount RingLog := m.exchange Ledger.log

/-- A mount with books after something was done to it that is booked as `books`. -/
def rebooked (m : Mount RingLog) (books : Ledger) : Mount Ledger := m.exchange books.setLog

/-- A mount with books after an operation. -/
def bookOp (m : Mount Ledger) : RingOp → Mount Ledger
  | .call c => m.after c
  | .commitAmid tid strikes last => (m.commitAmid tid strikes last).2
  | .request => m.request.2
  | .wait tid => (m.unbooked.afterOp (.wait tid)).rebooked m.log
  | .release count => (m.unbooked.afterOp (.release count)).rebooked (m.log.release count)
  | .setFailing failing => (m.unbooked.afterOp (.setFailing failing)).rebooked m.log
  | .abort => (m.unbooked.afterOp .abort).rebooked m.log

/-- A mount with books after some operations. -/
def bookOps (m : Mount Ledger) (ops : List RingOp) : Mount Ledger := ops.foldl bookOp m

theorem runOps_append (m : Mount RingLog) (ops : List RingOp) (op : RingOp) :
    m.runOps (ops ++ [op]) = (m.runOps ops).afterOp op :=
  List.foldl_append

theorem bookOps_append (m : Mount Ledger) (ops : List RingOp) (op : RingOp) :
    m.bookOps (ops ++ [op]) = (m.bookOps ops).bookOp op :=
  List.foldl_append

-- Keeping books changes nothing.
theorem unbooked_bookOp (m : Mount Ledger) (op : RingOp) :
    (m.bookOp op).unbooked = m.unbooked.afterOp op := by
  cases op with
  | call c => exact (after_exchange Ledger.alike.toAlike m c).symm
  | commitAmid tid strikes last =>
      exact (congrArg Prod.snd (commitAmid_exchange Ledger.alike m tid strikes last)).symm
  | request => exact (congrArg Prod.snd (request_exchange Ledger.alike.toAlike m)).symm
  | wait tid => rfl
  | release count => rfl
  | setFailing failing => rfl
  | abort => rfl

/-- A run with books is the run without them. -/
theorem unbooked_bookOps (m : Mount RingLog) (ops : List RingOp) :
    (m.booked.bookOps ops).unbooked = m.runOps ops := by
  induction ops using List.reverseRecOn with
  | nil => rfl
  | append_singleton ops op ih =>
      rw [bookOps_append, unbooked_bookOp, ih, runOps_append]

end Mount

end BlockJournal
