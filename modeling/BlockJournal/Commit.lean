import BlockJournal.Descriptor
import BlockJournal.RingLog
import BlockJournal.Revocation

/-!
# Commits

Writing the records of a transaction to the log.

A commit drains the table and packs the records into descriptors: it asks the
log for one when it has a record to write, fills it until the next entry would
go beyond the size the descriptor was made for, closes it and hands it to the
log. The last one is closed after the last record. The header of a descriptor is
stored before it is filed; its entries are checked as they come and stored
together with the count when it is closed, since nobody looks at it in between.

Every record is freed, whatever happens. It counts as written once its
descriptor was handed to the log, and as dropped if that never comes about: the
journal was aborted, the log had no room, the descriptor had no room for its
header, the entry or the count. The log may abort the journal from inside any
call, so whether it was aborted is looked at before each record and again
before a descriptor is handed over.

## Main definitions

* `WriteStats`: What a commit counts.
* `OpenDescriptor`: The descriptor being filled.
* `Draft`: A commit under way.
* `Draft.write`: Writing one record.
* `Mount.commit`: Writing them all.
* `Mount.wait`: Waiting for the descriptors of a transaction.
-/

namespace BlockJournal

/-- What a commit counts. -/
structure WriteStats where
  /-- Records taken out of the table. -/
  records : Nat := 0
  /-- Records in descriptors that were handed to the log. -/
  written : Nat := 0
  /-- Records that were not. -/
  dropped : Nat := 0
  /-- Descriptors handed to the log. -/
  descriptors : Nat := 0
  deriving DecidableEq, Repr, Inhabited

/-- The descriptor being filled. -/
structure OpenDescriptor where
  /-- Its buffer. -/
  buffer : BufferId
  /-- The size it was made for. -/
  capacity : Nat
  /-- The number of bytes it has. -/
  room : Nat
  /-- The width of its entries. -/
  width : RecordWidth
  /-- The number of entries. -/
  entries : Nat
  /-- The blocks of the entries, newest first. -/
  blocks : List BlockNumber
  deriving DecidableEq, Repr

namespace OpenDescriptor

/-- Where the next entry goes. -/
def offset (desc : OpenDescriptor) : Nat := revokeHeaderSize + desc.width.bytes * desc.entries

/-- The test that another entry would go beyond the size the descriptor was made for. -/
def isFull (desc : OpenDescriptor) : Bool := desc.capacity < desc.offset + desc.width.bytes

/-- Add an entry. -/
def add (desc : OpenDescriptor) (block : BlockNumber) : Except FieldError OpenDescriptor :=
  match checkEntry desc.room desc.offset block desc.width with
  | .error e => .error e
  | .ok () => .ok { desc with entries := desc.entries + 1, blocks := block :: desc.blocks }

/-- Store the entries and the count in the contents of the descriptor. -/
def close (desc : OpenDescriptor) (data : Bytes) : Except FieldError Unit × Bytes :=
  closeRevoke (writeEntries data desc.blocks.reverse desc.width) desc.offset

end OpenDescriptor

/-- A commit under way. -/
structure Draft (σ : Type) where
  /-- The journal. -/
  mount : Mount σ
  /-- The counts so far. -/
  stats : WriteStats
  /-- The descriptor being filled, if there is one. -/
  current : Option OpenDescriptor

namespace Draft

variable {σ : Type}

/-- Count records that will not be written. -/
def drop (d : Draft σ) (n : Nat) : Draft σ :=
  { d with stats.dropped := d.stats.dropped + n }

/-- Close a descriptor and hand it to the log. -/
def flush [LogService σ] (d : Draft σ) (desc : OpenDescriptor) : Draft σ :=
  let b := d.mount.store.get desc.buffer
  if d.mount.journal.aborted then
    { d with mount := d.mount.emit (.descriptorDropped b.block desc.entries) }.drop desc.entries
  else
    match desc.close b.data with
    | (.error e, data) =>
        { d with
          mount := (d.mount.modifyBuffer desc.buffer (·.setData data)).emit
            (.countFailed b.block e) }.drop desc.entries
    | (.ok (), data) =>
        let m := d.mount.modifyBuffer desc.buffer
          (fun b => ((b.setData data).setLogWrite true).setDirty false)
        let m := m.emit (.descriptorSubmitted b.block desc.entries desc.offset)
        { d with
          mount := m.submit desc.buffer
          stats.written := d.stats.written + desc.entries
          stats.descriptors := d.stats.descriptors + 1 }

/-- Close the descriptor being filled, if there is one. -/
def closeCurrent [LogService σ] (d : Draft σ) : Draft σ :=
  match d.current with
  | none => d
  | some desc => { d with current := none }.flush desc

/-- Close the descriptor being filled if it has no room for another entry. -/
def makeRoom [LogService σ] (d : Draft σ) : Draft σ :=
  match d.current with
  | none => d
  | some desc => if desc.isFull then d.closeCurrent else d

/-- Ask the log for a descriptor and start it. -/
def openNew [LogService σ] (d : Draft σ) (tid : Tid) (width : RecordWidth) : Draft σ :=
  match d.mount.request with
  | (none, m) => { d with mount := m.emit (.descriptorUnavailable tid) }
  | (some id, m) =>
      let b := m.store.get id
      match openRevoke b.data tid with
      | (.error e, data) =>
          { d with
            mount := (m.modifyBuffer id (·.setData data)).emit
              (.descriptorTooSmall tid b.block e) }
      | (.ok (), data) =>
          let m := (m.modifyBuffer id (·.setData data)).file tid id
          { d with
            mount := m
            current := some ⟨id, b.size, (m.store.get id).data.length, width, 0, []⟩ }

/-- Have a descriptor to fill, as far as the log has room. -/
def ensureOpen [LogService σ] (d : Draft σ) (tid : Tid) (width : RecordWidth) : Draft σ :=
  match d.current with
  | some _ => d
  | none => d.openNew tid width

/-- Put a record into the descriptor being filled. -/
def append (d : Draft σ) (desc : OpenDescriptor) (block : BlockNumber) : Draft σ :=
  match desc.add block with
  | .error e => { d with mount := d.mount.emit (.entryFailed block e) }.drop 1
  | .ok desc => { d with current := some desc }

/-- Put a record into a descriptor that has room for it, as far as the log has one. -/
def put [LogService σ] (d : Draft σ) (tid : Tid) (width : RecordWidth) (r : Record) : Draft σ :=
  let d := d.makeRoom.ensureOpen tid width
  match d.current with
  | none => d.drop 1
  | some desc => d.append desc r.block

/-- Take up the next record. -/
def count (d : Draft σ) : Draft σ := { d with stats.records := d.stats.records + 1 }

/-- Write one record. -/
def write [LogService σ] (tid : Tid) (width : RecordWidth) (d : Draft σ) (r : Record) :
    Draft σ :=
  let d := d.count
  if d.mount.journal.aborted then d.drop 1 else d.put tid width r

end Draft

namespace Mount

variable {σ : Type}

/-- Add the outcome of a commit to the counters. -/
def countCommit (m : Mount σ) (stats : WriteStats) : Mount σ :=
  let c := m.journal.counters
  { m with
    journal.counters :=
      { c with
        recordsWritten := c.recordsWritten + UInt64.ofNat stats.written
        recordsDropped := c.recordsDropped + UInt64.ofNat stats.dropped
        descriptorsWritten := c.descriptorsWritten + UInt64.ofNat stats.descriptors } }

/-- Count and report the outcome of a commit. -/
def finishCommit (m : Mount σ) (tid : Tid) (stats : WriteStats) : Mount σ :=
  let m := m.countCommit stats
  m.emit (.recordsWritten tid stats.records stats.written stats.dropped stats.descriptors
    m.journal.aborted)

/-- Take every record out of the table. -/
def drainTable (m : Mount σ) : List Record × Mount σ :=
  let (table, pool) := m.journal.table.clear m.pool
  (m.journal.table.records, { m with journal.table := table, pool := pool })

/-- Write the records of a transaction to the log and empty the table. -/
def commit [LogService σ] (m : Mount σ) (tid : Tid) : WriteStats × Mount σ :=
  let (records, m) := m.drainTable
  let d := (records.foldl (Draft.write tid m.journal.config.recordWidth) ⟨m, {}, none⟩).closeCurrent
  (d.stats, d.mount.finishCommit tid d.stats)

/-- Wait for the descriptors of a transaction, with the blocks they were written to. -/
def wait (m : Mount RingLog) (tid : Tid) : Except Error (List BlockNumber) × Mount RingLog :=
  match m.log.collect m.store tid with
  | (c, log) => (c.result, { m with log := log, store := c.store }.emit (c.event tid))

/-- Free blocks of the log. -/
def releaseLog (m : Mount RingLog) (count : Nat) : Mount RingLog :=
  { m with log := m.log.release count }

end Mount

end BlockJournal
