import BlockJournal.Mount

/-!
# Revoking and Cancelling

Revoking a block that was freed, and taking the revoke back when the block is
used again before the commit.

A revoke puts a record of the block into the table, or brings the record that
is there up to date, and marks a buffer of the block as revoked: the one the
caller hands over, or else the one the cache has. A buffer that was handed over
is taken off the lists of the transaction. Revoking a block whose buffer is
marked already breaks a rule of use.

A cancel moves its buffer to the known-clean state. Unless the buffer was there
already it also searches the table and removes the record of the block, and if
the buffer is not in the cache it takes back the mark of the one that is.

## Main definitions

* `Table.record`: Adding a record or bringing one up to date.
* `Mount.revoke`: Revoking a block.
* `Mount.cancel`: Taking a revoke back.
-/

namespace BlockJournal

/-- Put a record of a block into a table, or move the one that is there to the
    later transaction. The answer is whether there was one. -/
def Table.record (block : BlockNumber) (tid : Tid) :
    Table × Pool → Except Error Bool × Table × Pool
  | (t, p) =>
      match t.find block with
      | some h =>
          match t.get? h with
          | some r => (.ok true, t.set h (r.sequence.latest tid), p)
          | none => (.ok true, t, p)
      | none =>
          match t.insert p block tid with
          | (.error e, t, p) => (.error e, t, p)
          | (.ok _, t, p) => (.ok false, t, p)

/-- Where the buffer of a revoke comes from. -/
inductive Held where
  /-- The caller handed it over. -/
  | given (id : BufferId)
  /-- The cache had it. -/
  | found (id : BufferId)
  /-- There is none. -/
  | nothing
  deriving DecidableEq, Repr

namespace Held

/-- The buffer, wherever it comes from. -/
def buffer? : Held → Option BufferId
  | given id | found id => some id
  | nothing => none

end Held

namespace Mount

variable {σ : Type}

/-- The buffer to be marked when a block is revoked. -/
def hold (m : Mount σ) (block : BlockNumber) : Option BufferId → Held
  | some id => .given id
  | none =>
      match m.store.lookup block m.journal.blockSize.bytes with
      | some id => .found id
      | none => .nothing

/-- The test that a buffer is marked as revoked. -/
def isRevoked (m : Mount σ) (held : Held) : Bool :=
  match held.buffer? with
  | some id => (m.store.get id).flags.revoke == .revoked
  | none => false

/-- Mark a buffer as revoked. -/
def markRevoked (m : Mount σ) (held : Held) : Mount σ :=
  match held.buffer? with
  | some id => m.modifyBuffer id Buffer.markRevoked
  | none => m

/-- Take a buffer that was handed over off the lists of a transaction. -/
def letGo [LogService σ] (m : Mount σ) (tid : Tid) : Held → Mount σ
  | .given id => m.forget tid id
  | .found _ | .nothing => m

/-- The test that no other buffer of the block, which the cache has, is known to be
    clean. -/
def aliasAgrees (m : Mount σ) (block : BlockNumber) (id : BufferId) : Bool :=
  match m.store.lookup block m.journal.blockSize.bytes with
  | some other => other = id || (m.store.get other).flags.revoke != .clean
  | none => true

/-- Test that the buffer handed over and the one in the cache agree, where such
    checks are asked for. A release build goes on whatever comes out. -/
def checkAlias (m : Mount σ) (block : BlockNumber) (given : Option BufferId) :
    Except Stop Unit × Mount σ :=
  match given with
  | some id =>
      if m.journal.config.expensiveChecks then
        match m.check .cleanAlias (m.aliasAgrees block id) with
        | (.error stop, m) => (.error stop, m)
        | (.ok _, m) => (.ok (), m)
      else (.ok (), m)
  | none => (.ok (), m)

/-- Count a revoke. -/
def countRevoke (m : Mount σ) (refreshed : Bool) : Mount σ :=
  if refreshed then
    { m with journal.counters.refreshed := m.journal.counters.refreshed + 1 }
  else { m with journal.counters.revokes := m.journal.counters.revokes + 1 }

/-- Put a record of a block into the table, under the policy for allocations. -/
def record (m : Mount σ) (tid : Tid) (block : BlockNumber) :
    Option (Except Error Bool) × Mount σ :=
  let r := BlockJournal.retry m.journal.config.retry Journal.patience (Table.record block tid)
    (m.journal.table, m.pool)
  (r.result,
    { m with journal.table := r.state.1, pool := r.state.2 }.emitAll (r.waits.map Wait.event))

/-- Revoke a block in a transaction. `given` is the buffer of the block that the
    caller hands over, if any. -/
def revoke [LogService σ] (m : Mount σ) (tid : Tid) (block : BlockNumber)
    (given : Option BufferId) : Except Stop Unit × Mount σ :=
  match m.addFeatures m.journal.config.neededFeatures with
  | (.error e, m) => (.error (.failed e), m)
  | (.ok (), m) =>
      if m.journal.config.recordWidth.fits block then
        match m.checkAlias block given with
        | (.error stop, m) => (.error stop, m)
        | (.ok (), m) =>
            let held := m.hold block given
            match m.check .revokedTwice (!m.isRevoked held) with
            | (.error stop, m) => (.error stop, m)
            | (.ok false, m) => (.ok (), m.letGo tid held)
            | (.ok true, m) =>
                match m.record tid block with
                | (none, m) => (.error .stalled, m)
                | (some (.error e), m) => (.error (.failed e), m.emit (.revokeFailed block tid e))
                | (some (.ok refreshed), m) =>
                    (.ok (), (((m.markRevoked held).letGo tid held).countRevoke refreshed).emit
                      (.blockRevoked block tid refreshed))
      else (.error (.failed (.recordTooNarrow block m.journal.config.recordWidth)), m)

/-- Search the table for a record of a block and remove it. -/
def takeBack (m : Mount σ) (tid : Tid) (block : BlockNumber) : Bool × Mount σ :=
  match m.journal.table.find block with
  | none => (false, m)
  | some h =>
      match m.journal.table.remove m.pool h with
      | (none, table, pool) => (false, { m with journal.table := table, pool := pool })
      | (some r, table, pool) =>
          (true,
            { m with
              journal.table := table
              journal.counters.cancels := m.journal.counters.cancels + 1
              pool := pool }.emit (.revokeCancelled block tid r.sequence))

/-- Count a cancel that needed no search. -/
def countFastCancel (m : Mount σ) : Mount σ :=
  { m with journal.counters.fastCancels := m.journal.counters.fastCancels + 1 }

/-- Take back the mark of the buffer in the cache, if `id` is another buffer of the
    same block that is not in the cache. -/
def clearAlias (m : Mount σ) (id : BufferId) : Mount σ :=
  let b := m.store.get id
  if b.flags.hashed then m
  else
    match m.store.lookup b.block b.size with
    | none => m
    | some other =>
        if other = id then m
        else (m.modifyBuffer other Buffer.clearRevoked).emit (.aliasCleared b.block)

/-- Test that no record of a block is left, where such checks are asked for. -/
def checkCancelled (m : Mount σ) (block : BlockNumber) : Except Stop Unit × Mount σ :=
  if m.journal.config.expensiveChecks then
    match m.check .survivedCancel (m.journal.table.find block).isNone with
    | (.error stop, m) => (.error stop, m)
    | (.ok _, m) => (.ok (), m)
  else (.ok (), m)

/-- Take back the revoke of a buffer's block before it is journaled again. The
    answer is whether a record was removed. -/
def cancel (m : Mount σ) (tid : Tid) (id : BufferId) : Except Stop Bool × Mount σ :=
  let b := m.store.get id
  let needed := b.mayBeRevoked
  let m := m.modifyBuffer id Buffer.markClean
  match if needed then m.takeBack tid b.block else (false, m.countFastCancel) with
  | (removed, m) =>
      match m.checkCancelled b.block with
      | (.error stop, m) => (.error stop, m)
      | (.ok (), m) => (.ok removed, if needed then m.clearAlias id else m)

end Mount

end BlockJournal
