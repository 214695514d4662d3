import BlockJournal.LogService
import BlockJournal.Table

/-!
# Mounted Journals

A journal at work, with everything it works on.

A journal keeps the table of blocks revoked in the running transaction, the
features its superblock advertises, whether it was aborted, and its counters.
A mount puts it together with the pool that pays for its records, the buffers,
the log and the reports made so far. Everything the journal does is a function
from one mount to the next. The mount survives when an operation fails or is
stopped, with the changes made up to that point.

## Main definitions

* `Counters`: What the journal counts.
* `Journal`: What the journal keeps.
* `Mount`: A journal at work.
* `Mount.create`, `Mount.destroy`: Its beginning and its end.
* `Mount.abort`, `Mount.addFeatures`: Changes that never go back.
* `Mount.check`: Testing a rule of use.
* `Mount.forget`, `Mount.request`, `Mount.file`, `Mount.submit`: Calls to the
  log.
-/

namespace BlockJournal

/-- What a journal counts, modulo the width of a word. -/
structure Counters where
  /-- Records added. -/
  revokes : UInt64 := 0
  /-- Revokes of blocks that had a record already. -/
  refreshed : UInt64 := 0
  /-- Cancels that a buffer's mark alone could answer. -/
  fastCancels : UInt64 := 0
  /-- Records taken back. -/
  cancels : UInt64 := 0
  /-- Records in descriptors that were handed to the log. -/
  recordsWritten : UInt64 := 0
  /-- Records given up at a commit. -/
  recordsDropped : UInt64 := 0
  /-- Descriptors handed to the log. -/
  descriptorsWritten : UInt64 := 0
  deriving DecidableEq, Repr, Inhabited

/-- What a journal keeps. -/
structure Journal where
  /-- The settings. -/
  config : Config
  /-- The number of bytes in a block. -/
  blockSize : BlockSize
  /-- The feature bits of the superblock. -/
  features : UInt32
  /-- Whether the journal gave up writing to its log. -/
  aborted : Bool
  /-- The blocks revoked in the running transaction. -/
  table : Table
  /-- The counters. -/
  counters : Counters
  deriving DecidableEq, Repr

namespace Journal

/-- The number of retries after which a wait without limit counts as endless.
    Nothing frees a record while the journal waits, so if the first retry does not
    help none does. -/
def patience : Nat := 16

/-- A journal with an empty table. -/
def create (config : Config) : Except Error Journal :=
  match config.check with
  | .error e => .error e
  | .ok blockSize =>
      match Table.create config.revokeHashSize.toNat with
      | .error e => .error e
      | .ok table => .ok ⟨config, blockSize, 0, false, table, {}⟩

/-- The transaction that revoked a block, if its record is in the table. -/
def revokedIn (j : Journal) (block : BlockNumber) : Option Tid :=
  (j.table.lookup block).map Record.sequence

/-- The journal as a diagnostic shows it. -/
def describe (j : Journal) : String :=
  "Journal \x7b config: " ++ j.config.describe ++ s!", incompat: {j.features}, " ++
    s!"aborted: {j.aborted}, revoke_records: {j.table.len}, .. \x7d"

end Journal

/-- A journal at work, with everything it works on. -/
structure Mount (σ : Type) where
  /-- Whether broken rules stop it. -/
  build : Build
  /-- What it keeps. -/
  journal : Journal
  /-- The pool that pays for its records. -/
  pool : Pool
  /-- The buffers. -/
  store : Store
  /-- The log. -/
  log : σ
  /-- The reports made so far. -/
  trace : Array Event

namespace Mount

variable {σ : Type}

/-- Make a report. -/
def emit (m : Mount σ) (e : Event) : Mount σ := { m with trace := m.trace.push e }

/-- Make several reports. -/
def emitAll (m : Mount σ) (es : List Event) : Mount σ := { m with trace := m.trace ++ es.toArray }

/-- Mount a journal. Failing to set up its table is fatal. -/
def create (build : Build) (config : Config) (store : Store) (log : σ) :
    Except Error (Mount σ) :=
  match Journal.create config with
  | .error e => .error e
  | .ok journal =>
      .ok
        { build := build
          journal := journal
          pool := Pool.new (config.recordLimit.map UInt64.toNat)
          store := store
          log := log
          trace := #[.tableCreated config.revokeHashSize.toNat config.blockSize.toNat
            config.recordWidth] }

/-- Give up writing to the log. Only the first time is reported. -/
def abort (m : Mount σ) : Mount σ :=
  if m.journal.aborted then m else { m with journal.aborted := true }.emit .journalAborted

/-- Report a violation that the build goes on after, or stop. -/
def settle (m : Mount σ) (v : Violation) (verdict : Except Violation Bool) :
    Except Stop Bool × Mount σ :=
  match verdict with
  | .error v => (.error (.violated v), m)
  | .ok true => (.ok true, m)
  | .ok false => (.ok false, m.emit (.ruleBroken v))

/-- Test a rule of use. -/
def check (m : Mount σ) (v : Violation) (holds : Bool) : Except Stop Bool × Mount σ :=
  m.settle v (m.build.check v holds)

/-- Add feature bits to the superblock, unless they are all there. -/
def addFeatures (m : Mount σ) (bits : UInt32) : Except Error Unit × Mount σ :=
  if m.journal.features &&& bits = bits then (.ok (), m)
  else
    match m.journal.config.format with
    | .v1 => (.error (.noFeatureFields bits), m)
    | .v2 =>
        (.ok (),
          { m with journal.features := m.journal.features ||| bits }.emit
            (.featuresAdded m.journal.features (m.journal.features ||| bits)))

/-- Change the buffer with an id. -/
def modifyBuffer (m : Mount σ) (id : BufferId) (f : Buffer → Buffer) : Mount σ :=
  { m with store := m.store.modify id f }

/-- Take in the answer of the log to a call. -/
def absorb {α : Type} (m : Mount σ) (reply : Reply σ α) : Mount σ :=
  let m := { m with log := reply.next }.emitAll reply.events
  if reply.abort then m.abort else m

/-- Take a buffer off the lists of a transaction. -/
def forget [LogService σ] (m : Mount σ) (tid : Tid) (id : BufferId) : Mount σ :=
  let reply := LogService.forget m.log tid (m.store.get id)
  let m := m.absorb reply
  if reply.value then m.modifyBuffer id (·.setDirty false) else m

/-- Ask the log for a descriptor. -/
def request [LogService σ] (m : Mount σ) : Option BufferId × Mount σ :=
  let reply := LogService.request m.log
  let m := m.absorb reply
  match reply.value with
  | none => (none, m)
  | some (block, size) =>
      match m.store.detached block size with
      | (id, store) => (some id, { m with store := store })

/-- File a descriptor under a transaction. -/
def file [LogService σ] (m : Mount σ) (tid : Tid) (id : BufferId) : Mount σ :=
  let reply := LogService.file m.log tid id (m.store.get id)
  let m := m.absorb reply
  match reply.value with
  | none => m
  | some len => m.modifyBuffer id (·.truncate len)

/-- Have a buffer written. -/
def submit [LogService σ] (m : Mount σ) (id : BufferId) : Mount σ :=
  m.absorb (LogService.submit m.log id (m.store.get id))

/-- The buffer of a block in the cache, full of zeros if it was not there. -/
def getOrCreate (m : Mount σ) (block : BlockNumber) : BufferId × Mount σ :=
  match m.store.getOrCreate block with
  | (id, store) =>
      (id,
        if (m.store.mapped? block).isSome then { m with store := store }
        else { m with store := store }.emit (.bufferCreated block))

/-- The buffer of a block in the cache, read from a device if it was not there.
    `contended` says that somebody else puts the block into the cache while the
    device is at work. -/
def readBuffer (m : Mount σ) (device : Device) (block : BlockNumber) (contended : Bool) :
    Except Error BufferId × Mount σ :=
  let during (s : Store) := if contended then (s.getOrCreate block).2 else s
  match m.store.read device block during with
  | (result, store) =>
      (result,
        if contended && m.store.reachesDevice device block then
          { m with store := store }.emit (.bufferCreated block)
        else { m with store := store })

/-- Drop a block from the cache. -/
def evict (m : Mount σ) (block : BlockNumber) : Option BufferId × Mount σ :=
  match m.store.evict block with
  | (none, store) => (none, { m with store := store })
  | (some id, store) => (some id, { m with store := store }.emit (.bufferEvicted block))

/-- Unmount the journal, whose table should be empty. Its records go back to the
    pool either way. -/
def destroy (m : Mount σ) : Except Stop Unit × Mount σ :=
  match m.journal.table.destroy m.build m.pool with
  | (verdict, pool) =>
      let m := { m with pool := pool, journal.table := m.journal.table.emptied }
      match m.settle .nonEmptyTable verdict with
      | (.error stop, m) => (.error stop, m)
      | (.ok _, m) => (.ok (), m.emit .tableDestroyed)

end Mount

end BlockJournal
