import BlockJournal.Descriptor
import BlockJournal.Revocation

/-!
# Recovery

Finding out after a crash which logged images are stale.

Recovery scans the log once and gathers every revoke it finds in a table of its
own. The log may hold several revokes of one block; the table keeps the latest.
An image of a block that was logged by a transaction is stale if the block was
revoked by that transaction or a later one. A revoke never makes an image stale
that was logged after it, since logging the block again took the revoke back.

A scan stops at the first block that looks like a revoke descriptor and cannot
be read. What was gathered before it stays. The counters of a block go up only
once all of its entries are in the table.

## Main definitions

* `ReplayStats`: What a recovery counts.
* `Recovery`: A recovery under way.
* `Recovery.add`: Gathering one revoke.
* `Recovery.scanBlock`, `Recovery.scan`: Reading the log.
* `Recovery.isStale`, `Recovery.decide`: What to do with an image.
* `Recovery.finish`: The end of a recovery.
-/

namespace BlockJournal

/-- What a recovery counts, modulo the width of a word. -/
structure ReplayStats where
  /-- Revoke descriptors read. -/
  revokeBlocks : UInt64 := 0
  /-- Entries in them. -/
  revokeRecords : UInt64 := 0
  /-- Other blocks scanned. -/
  otherBlocks : UInt64 := 0
  /-- Images to be replayed. -/
  replayed : UInt64 := 0
  /-- Images that are stale. -/
  skipped : UInt64 := 0
  deriving DecidableEq, Repr, Inhabited

/-- What to do with a logged image. -/
inductive Decision where
  /-- Write it to its block. -/
  | replay
  /-- Leave it: a revoke makes it stale. -/
  | skip
  deriving DecidableEq, Repr

/-- The name of a decision. -/
def Decision.name : Decision → String
  | replay => "replay"
  | skip => "skip"

/-- A recovery under way. -/
structure Recovery where
  /-- The revokes gathered so far. -/
  table : Table
  /-- The pool that pays for their records. -/
  pool : Pool
  /-- The width of the entries in the log. -/
  width : RecordWidth
  /-- What to do when a record cannot be allocated. -/
  policy : RetryPolicy
  /-- The counts so far. -/
  stats : ReplayStats
  /-- The reports made so far. -/
  trace : Array Event
  deriving DecidableEq, Repr

namespace Recovery

/-- Make a report. -/
def emit (r : Recovery) (e : Event) : Recovery := { r with trace := r.trace.push e }

/-- A recovery that has gathered nothing yet. -/
def create (hashSize : Nat) (width : RecordWidth) (policy : RetryPolicy) (pool : Pool) :
    Except Error Recovery :=
  match Table.create hashSize with
  | .error e => .error e
  | .ok table => .ok ⟨table, pool, width, policy, {}, #[.recoveryStarted hashSize width]⟩

/-- Let another pool pay, or the same one as others have left it. -/
def withPool (r : Recovery) (pool : Pool) : Recovery := { r with pool := pool }

/-- The test for a revoke that makes an image of a transaction stale. -/
def isStale (r : Recovery) (block : BlockNumber) (sequence : Tid) : Bool :=
  match r.table.lookup block with
  | some found => found.sequence.isAtOrAfter sequence
  | none => false

/-- The latest transaction that revoked a block. -/
def revokedIn (r : Recovery) (block : BlockNumber) : Option Tid :=
  (r.table.lookup block).map Record.sequence

/-- Add a record to the table, under the policy for allocations. -/
def insert (r : Recovery) (block : BlockNumber) (sequence : Tid) :
    Except Stop Unit × Recovery :=
  let op (tp : Table × Pool) := tp.1.insert tp.2 block sequence
  let done := retry r.policy Journal.patience op (r.table, r.pool)
  let r :=
    { r with
      table := done.state.1
      pool := done.state.2
      trace := r.trace ++ (done.waits.map Wait.event).toArray }
  match done.result with
  | none => (.error .stalled, r)
  | some (.error e) => (.error (.failed e), r)
  | some (.ok _) => (.ok (), r)

/-- Gather one revoke. Of two revokes of a block the later one stays. -/
def add (r : Recovery) (block : BlockNumber) (sequence : Tid) : Except Stop Unit × Recovery :=
  match r.table.find block with
  | none => r.insert block sequence
  | some h =>
      match r.table.get? h with
      | none => (.ok (), r)
      | some found =>
          if sequence.isAfter found.sequence then
            (.ok (), { r with table := r.table.set h sequence })
          else (.ok (), r)

/-- Gather the revokes of a transaction. -/
def addAll (r : Recovery) (sequence : Tid) : List BlockNumber → Except Stop Unit × Recovery
  | [] => (.ok (), r)
  | block :: rest =>
      match r.add block sequence with
      | (.error stop, r) => (.error stop, r)
      | (.ok (), r) => addAll r sequence rest

/-- Gather the revokes in a descriptor found at a block of the log. The answer is
    the number of entries. -/
def scanBlock (r : Recovery) (logBlock : BlockNumber) (data : Bytes) :
    Except Stop Nat × Recovery :=
  match RevokeBlock.parse data r.width with
  | .error e => (.error (.failed (.corruptRevokeBlock logBlock e)), r.emit (.scanFailed logBlock e))
  | .ok parsed =>
      match r.addAll parsed.sequence parsed.blocks with
      | (.error stop, r) => (.error stop, r)
      | (.ok (), r) =>
          let entries := parsed.blocks.length
          (.ok entries,
            { r with
              stats.revokeBlocks := r.stats.revokeBlocks + 1
              stats.revokeRecords := r.stats.revokeRecords + UInt64.ofNat entries }.emit
                (.blockScanned logBlock parsed.sequence entries))

/-- Scan blocks of the log. All but revoke descriptors are only counted. -/
def scan (r : Recovery) : List (BlockNumber × Bytes) → Except Stop Unit × Recovery
  | [] => (.ok (), r)
  | (logBlock, data) :: rest =>
      if isRevokeBlock data then
        match r.scanBlock logBlock data with
        | (.error stop, r) => (.error stop, r)
        | (.ok _, r) => scan r rest
      else scan { r with stats.otherBlocks := r.stats.otherBlocks + 1 } rest

/-- Decide what to do with an image of a block logged by a transaction. -/
def decide (r : Recovery) (block : BlockNumber) (sequence : Tid) : Decision × Recovery :=
  if r.isStale block sequence then
    (.skip,
      { r with stats.skipped := r.stats.skipped + 1 }.emit (.imageSkipped block sequence))
  else (.replay, { r with stats.replayed := r.stats.replayed + 1 })

/-- Free every record. -/
def clear (r : Recovery) : Recovery :=
  let (table, pool) := r.table.clear r.pool
  { r with table := table, pool := pool }

/-- The end of a recovery that nobody asked about. -/
def discard (r : Recovery) : Pool := r.table.discard r.pool

/-- The end of a recovery: every record is freed, and the counts are handed over. -/
def finish (r : Recovery) : ReplayStats × Recovery :=
  let r := r.clear
  (r.stats,
    r.emit (.recoveryFinished r.stats.revokeBlocks r.stats.revokeRecords r.stats.replayed
      r.stats.skipped))

end Recovery

/-- A recovery that shares the pool of a mounted journal. -/
def Mount.beginRecovery {σ : Type} (m : Mount σ) : Except Error Recovery :=
  Recovery.create m.journal.config.recoveryHashSize.toNat m.journal.config.recordWidth
    m.journal.config.retry m.pool

end BlockJournal
