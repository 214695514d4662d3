import BlockJournal.Retry
import BlockJournal.Rule
import BlockJournal.Tid

/-!
# Events

What the journal reports of its work while it is doing it.

Every report is a constructor with what it has to say. How a report is filed,
under which subsystem and how urgent it is, follows from the constructor, so
the code that reports something names only the thing that happened.

## Main definitions

* `Event`: The reports.
* `Event.level`, `Event.target`, `Event.name`, `Event.fields`: How each is
  shown.
* `Wait.event`: The report of a delay before a retry.
-/

namespace BlockJournal

/-- Something worth reporting. -/
inductive Event where
  /-- A buffer was created in the cache. -/
  | bufferCreated (block : BlockNumber)
  /-- A buffer was dropped from the cache. -/
  | bufferEvicted (block : BlockNumber)
  /-- A rule was broken, and the build goes on. -/
  | ruleBroken (v : Violation)
  /-- A record could not be allocated and will be tried again. -/
  | allocationRetry (attempt : UInt32) (delay : UInt64) (detail : String)
  /-- The running transaction's table was set up. -/
  | tableCreated (hashSize blockSize : Nat) (width : RecordWidth)
  /-- The running transaction's table was torn down. -/
  | tableDestroyed
  /-- The journal gave up writing to its log. -/
  | journalAborted
  /-- Feature bits were added to the superblock. -/
  | featuresAdded (previous current : UInt32)
  /-- A block was revoked. -/
  | blockRevoked (block : BlockNumber) (tid : Tid) (refreshed : Bool)
  /-- No record could be had for a revoke. -/
  | revokeFailed (block : BlockNumber) (tid : Tid) (error : Error)
  /-- A record was taken back. -/
  | revokeCancelled (block : BlockNumber) (tid revokedIn : Tid)
  /-- The mark of another buffer of the block was taken back. -/
  | aliasCleared (block : BlockNumber)
  /-- The log has no room for a descriptor. -/
  | descriptorUnavailable (tid : Tid)
  /-- A descriptor has no room for its header. -/
  | descriptorTooSmall (tid : Tid) (block : BlockNumber) (error : FieldError)
  /-- A descriptor has no room for a record. -/
  | entryFailed (block : BlockNumber) (error : FieldError)
  /-- A descriptor was given up because the journal was aborted. -/
  | descriptorDropped (block : BlockNumber) (entries : Nat)
  /-- A descriptor could not be closed. -/
  | countFailed (block : BlockNumber) (error : FieldError)
  /-- A descriptor was handed to the log. -/
  | descriptorSubmitted (block : BlockNumber) (entries bytes : Nat)
  /-- The records of a transaction were written. -/
  | recordsWritten (tid : Tid) (records written dropped descriptors : Nat) (aborted : Bool)
  /-- The log was asked for a block and has none free. -/
  | logFull
  /-- A buffer was taken off a transaction's lists. -/
  | bufferForgotten (tid : Tid) (block : BlockNumber)
  /-- A descriptor did not reach the device. -/
  | logWriteFailed (block : BlockNumber) (error : Error)
  /-- Some descriptors of a transaction did not reach the device. -/
  | waitFailed (tid : Tid) (failed : Nat)
  /-- All descriptors of a transaction reached the device. -/
  | waitCompleted (tid : Tid) (written : Nat)
  /-- A recovery table was set up. -/
  | recoveryStarted (hashSize : Nat) (width : RecordWidth)
  /-- A revoke descriptor in the log cannot be read. -/
  | scanFailed (logBlock : BlockNumber) (error : FieldError)
  /-- A revoke descriptor in the log was read. -/
  | blockScanned (logBlock : BlockNumber) (tid : Tid) (entries : Nat)
  /-- A logged image is stale. -/
  | imageSkipped (block : BlockNumber) (tid : Tid)
  /-- Recovery is over. -/
  | recoveryFinished (revokeBlocks revokeRecords replayed skipped : UInt64)
  deriving DecidableEq, Repr

namespace Event

/-- How urgent a report is. -/
inductive Level where
  | error
  | warn
  | info
  | debug
  | trace
  deriving DecidableEq, Repr

/-- The name of a level. -/
def Level.name : Level → String
  | error => "error"
  | warn => "warn"
  | info => "info"
  | debug => "debug"
  | trace => "trace"

/-- The parts of the system that make reports. -/
inductive Target where
  | cache
  | revoke
  | commit
  | log
  | recovery
  deriving DecidableEq, Repr

/-- The name of a part of the system. -/
def Target.name : Target → String
  | cache => "ffs::block::cache"
  | revoke => "ffs::journal::revoke"
  | commit => "ffs::journal::commit"
  | log => "ffs::journal::log"
  | recovery => "ffs::journal::recovery"

/-- The value of a field of a report. -/
inductive Value where
  | number (n : Nat)
  | flag (b : Bool)
  | text (s : String)
  deriving DecidableEq, Repr

/-- How urgent each report is. -/
def level : Event → Level
  | ruleBroken _ | entryFailed .. | countFailed .. => .error
  | logWriteFailed .. | waitFailed .. | scanFailed .. => .error
  | journalAborted | descriptorUnavailable _ | descriptorTooSmall .. => .warn
  | descriptorDropped .. | logFull => .warn
  | featuresAdded .. | recordsWritten .. | recoveryFinished .. => .info
  | allocationRetry .. | tableCreated .. | tableDestroyed | revokeFailed .. => .debug
  | descriptorSubmitted .. | waitCompleted .. | recoveryStarted .. | blockScanned .. => .debug
  | bufferCreated _ | bufferEvicted _ | blockRevoked .. | revokeCancelled .. => .trace
  | aliasCleared _ | bufferForgotten .. | imageSkipped .. => .trace

/-- The part of the system each report comes from. -/
def target : Event → Target
  | bufferCreated _ | bufferEvicted _ => .cache
  | ruleBroken _ | allocationRetry .. | tableCreated .. | tableDestroyed => .revoke
  | journalAborted | featuresAdded .. | blockRevoked .. | revokeFailed .. => .revoke
  | revokeCancelled .. | aliasCleared _ => .revoke
  | descriptorUnavailable _ | descriptorTooSmall .. | entryFailed .. => .commit
  | descriptorDropped .. | countFailed .. | descriptorSubmitted .. | recordsWritten .. => .commit
  | logFull | bufferForgotten .. | logWriteFailed .. | waitFailed .. | waitCompleted .. => .log
  | recoveryStarted .. | scanFailed .. | blockScanned .. => .recovery
  | imageSkipped .. | recoveryFinished .. => .recovery

/-- The name each report is filed under. -/
def name : Event → String
  | bufferCreated _ => "buffer_create"
  | bufferEvicted _ => "buffer_evict"
  | ruleBroken _ => "journal_invariant_violated"
  | allocationRetry .. => "revoke_record_alloc_retry"
  | tableCreated .. => "revoke_table_init"
  | tableDestroyed => "revoke_table_destroy"
  | journalAborted => "journal_abort"
  | featuresAdded .. => "journal_set_features"
  | blockRevoked .. => "revoke_insert"
  | revokeFailed .. => "revoke_insert_failed"
  | revokeCancelled .. => "revoke_cancel"
  | aliasCleared _ => "revoke_cancel_alias"
  | descriptorUnavailable _ => "revoke_descriptor_unavailable"
  | descriptorTooSmall .. => "revoke_descriptor_too_small"
  | entryFailed .. => "revoke_record_encode_failed"
  | descriptorDropped .. => "revoke_descriptor_dropped_on_abort"
  | countFailed .. => "revoke_descriptor_count_failed"
  | descriptorSubmitted .. => "revoke_descriptor_submit"
  | recordsWritten .. => "revoke_records_written"
  | logFull => "log_full"
  | bufferForgotten .. => "buffer_forget"
  | logWriteFailed .. => "log_write_failed"
  | waitFailed .. => "log_ctl_write_failed"
  | waitCompleted .. => "log_ctl_complete"
  | recoveryStarted .. => "recovery_revoke_init"
  | scanFailed .. => "revoke_block_corrupt"
  | blockScanned .. => "revoke_block_scanned"
  | imageSkipped .. => "replay_skip_revoked"
  | recoveryFinished .. => "recovery_revoke_done"

/-- A field that holds a block number. -/
private def blockField (b : BlockNumber) : String × Value := ("block", .number b.toNat)

/-- A field that holds a transaction id. -/
private def tidField (t : Tid) : String × Value := ("tid", .number t.toNat)

/-- A field that holds a number. -/
private def count (name : String) (n : Nat) : String × Value := (name, .number n)

/-- What each report says. -/
def fields : Event → List (String × Value)
  | bufferCreated block | bufferEvicted block | aliasCleared block => [blockField block]
  | ruleBroken v => [("invariant", .text v.rule)]
  | allocationRetry attempt delay detail =>
      [count "attempt" attempt.toNat, count "delay_us" delay.toNat, ("detail", .text detail)]
  | tableCreated hashSize blockSize width =>
      [count "hash_size" hashSize, count "block_size" blockSize,
        ("record_width", .text width.describe)]
  | tableDestroyed | journalAborted | logFull => []
  | featuresAdded previous current =>
      [count "previous" previous.toNat, count "incompat" current.toNat]
  | blockRevoked block tid refreshed =>
      [blockField block, tidField tid, ("refreshed", .flag refreshed)]
  | revokeFailed block tid error =>
      [blockField block, tidField tid, ("error", .text error.message)]
  | revokeCancelled block tid revokedIn =>
      [blockField block, tidField tid, count "revoked_in" revokedIn.toNat]
  | descriptorUnavailable tid => [tidField tid]
  | descriptorTooSmall tid block error =>
      [tidField tid, blockField block, ("error", .text error.message)]
  | entryFailed block error | countFailed block error =>
      [blockField block, ("error", .text error.message)]
  | descriptorDropped block entries => [blockField block, count "entries" entries]
  | descriptorSubmitted block entries bytes =>
      [blockField block, count "entries" entries, count "bytes" bytes]
  | recordsWritten tid records written dropped descriptors aborted =>
      [tidField tid, count "records" records, count "written" written, count "dropped" dropped,
        count "descriptors" descriptors, ("aborted", .flag aborted)]
  | bufferForgotten tid block | imageSkipped block tid => [tidField tid, blockField block]
  | logWriteFailed block error => [blockField block, ("error", .text error.message)]
  | waitFailed tid failed => [tidField tid, count "failed" failed]
  | waitCompleted tid written => [tidField tid, count "written" written]
  | recoveryStarted hashSize width =>
      [count "hash_size" hashSize, ("record_width", .text width.describe)]
  | scanFailed logBlock error =>
      [count "log_block" logBlock.toNat, ("error", .text error.message)]
  | blockScanned logBlock tid entries =>
      [count "log_block" logBlock.toNat, tidField tid, count "entries" entries]
  | recoveryFinished revokeBlocks revokeRecords replayed skipped =>
      [count "revoke_blocks" revokeBlocks.toNat, count "revoke_records" revokeRecords.toNat,
        count "replayed" replayed.toNat, count "skipped" skipped.toNat]

end Event

/-- The report of a delay before a retry. -/
def Wait.event (w : Wait) : Event := .allocationRetry w.attempt w.delay w.detail

end BlockJournal
