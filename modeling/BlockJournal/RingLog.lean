import BlockJournal.LogService

/-!
# The Circular Log

A log service that writes descriptors to a range of device blocks, over and
over.

The log hands out the blocks of its area in turn and goes back to the first
after the last. It counts the blocks that are free and hands out none when
there are none. Freeing blocks is up to whoever has seen to it that their
contents are no longer needed, and blocks become free in the order in which
they were handed out.

A failed write is not reported to the writer. It is remembered by its block
until somebody waits for the transaction, and then the whole batch fails.

## Main definitions

* `RingLog`: The log, with its device.
* `RingLog.create`: A log over a range of blocks.
* `RingLog.release`: Freeing blocks.
* `RingLog.collect`: Waiting for the descriptors of a transaction.
-/

namespace BlockJournal

/-- A circular log on a device. -/
structure RingLog where
  /-- The device. -/
  device : Device
  /-- The first block of the area. -/
  first : Nat
  /-- The block after the last of the area. -/
  last : Nat
  /-- The block that is handed out next. -/
  head : Nat
  /-- The number of blocks that are free. -/
  free : Nat
  /-- The descriptors filed and not waited for, oldest first. -/
  pending : List (Tid × BufferId)
  /-- The buffers taken off the lists of transactions, oldest first. -/
  forgotten : List (Tid × BlockNumber)
  /-- The blocks whose writes failed and were not waited for. -/
  failed : List BlockNumber
  deriving DecidableEq, Repr

namespace RingLog

/-- A log over the blocks from `first` up to `last`, which is not part of it. -/
def create (device : Device) (first last : BlockNumber) : Except Error RingLog :=
  if first.toNat < last.toNat && last.toNat ≤ device.blockCount then
    .ok ⟨device, first.toNat, last.toNat, first.toNat, last.toNat - first.toNat, [], [], []⟩
  else .error (.logArea first last device.blockCount)

/-- The number of blocks in the area. -/
def capacity (log : RingLog) : Nat := log.last - log.first

/-- The block that follows the head. -/
def afterHead (log : RingLog) : Nat := if log.head + 1 = log.last then log.first else log.head + 1

/-- Free some blocks, all of them at most. -/
def release (log : RingLog) (count : Nat) : RingLog :=
  { log with free := min (log.free + count) log.capacity }

/-- Hand out the next block. -/
def advance (log : RingLog) : RingLog :=
  { log with head := log.afterHead, free := log.free - 1 }

instance : LogService RingLog where
  forget log tid b :=
    ⟨true, { log with forgotten := log.forgotten ++ [(tid, b.block)] }, false,
      [.bufferForgotten tid b.block]⟩
  request log :=
    if log.free = 0 then ⟨none, log, false, [.logFull]⟩
    else ⟨some (BlockNumber.ofNat log.head, log.device.blockSize), log.advance, false, []⟩
  file log tid id _ := ⟨none, { log with pending := log.pending ++ [(tid, id)] }, false, []⟩
  submit log _ b :=
    match log.device.write b.block b.data with
    | (.ok (), device) => ⟨(), { log with device := device }, false, []⟩
    | (.error e, device) =>
        ⟨(), { log with device := device, failed := log.failed.insert b.block }, false,
          [.logWriteFailed b.block e]⟩

/-- What waiting for descriptors has found out so far. -/
structure Collected where
  /-- The buffers. -/
  store : Store
  /-- The failed blocks that nobody waited for. -/
  failed : List BlockNumber
  /-- The blocks that were written. -/
  written : List BlockNumber
  /-- The blocks that were not. -/
  lost : List BlockNumber
  deriving DecidableEq, Repr

/-- Wait for one descriptor. One that was never submitted counts for nothing. -/
def Collected.add (c : Collected) (id : BufferId) : Collected :=
  let b := c.store.get id
  if b.flags.logWrite then
    let store := c.store.modify id (·.setLogWrite false)
    if b.block ∈ c.failed then
      { c with store := store, failed := c.failed.erase b.block, lost := c.lost ++ [b.block] }
    else { c with store := store, written := c.written ++ [b.block] }
  else c

/-- Wait for the descriptors of a transaction and take them off the list. -/
def collect (log : RingLog) (store : Store) (tid : Tid) : Collected × RingLog :=
  let mine := log.pending.filter (fun entry => entry.1 = tid)
  let others := log.pending.filter (fun entry => entry.1 ≠ tid)
  let c := (mine.map Prod.snd).foldl Collected.add ⟨store, log.failed, [], []⟩
  (c, { log with pending := others, failed := c.failed })

/-- The outcome of waiting: the blocks written, or the failure of the batch. -/
def Collected.result (c : Collected) : Except Error (List BlockNumber) :=
  if c.lost.isEmpty then .ok c.written else .error (.logWriteFailed c.lost)

/-- What waiting for a transaction reports. -/
def Collected.event (c : Collected) (tid : Tid) : Event :=
  if c.lost.isEmpty then .waitCompleted tid c.written.length else .waitFailed tid c.lost.length

end RingLog

end BlockJournal
