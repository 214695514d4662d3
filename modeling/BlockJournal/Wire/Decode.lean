import BlockJournal.Commit
import BlockJournal.Recovery
import BlockJournal.Wire.Value

/-!
# Decoding

Reading settings and counters from wire values.

Every number has to be a whole one within the range of its field. Settings
that are absent have their standard value, and only the limit on records may
be null. Counters have no standard values, so all of them have to be there.

Reading a block size checks only that it is a word. Whether a journal can work
with it is found out when the settings are checked.

## Main definitions

* `blockNumber?`, `blockSize?`, `tid?`: Words.
* `format?`, `recordWidth?`, `retryPolicy?`: Alternatives.
* `config?`: Settings.
* `writeStats?`, `counters?`, `replayStats?`: Counters.
-/

namespace BlockJournal.Wire

/-- A block number. -/
def blockNumber? (v : Value) : Option BlockNumber := v.word64?.map BlockNumber.mk

/-- A number of bytes that is meant as a block size. -/
def blockSize? (v : Value) : Option UInt32 := v.word32?

/-- A transaction id. -/
def tid? (v : Value) : Option Tid := v.word32?.map Tid.mk

/-- A format of the superblock. -/
def format? (v : Value) : Option JournalFormat :=
  match v.variant with
  | some "v1" => some .v1
  | some "v2" => some .v2
  | _ => none

/-- A width of records. -/
def recordWidth? (v : Value) : Option RecordWidth :=
  match v.variant with
  | some "narrow" => some .narrow
  | some "wide" => some .wide
  | _ => none

/-- A policy for allocations, with its name as the tag. -/
def retryPolicy? (v : Value) : Option RetryPolicy :=
  match v.tagged "policy" with
  | some ("fail", rest) => (rest.fields []).map fun _ => .fail
  | some ("bounded", rest) =>
      match rest.fields ["max_attempts", "initial_backoff_us", "max_backoff_us"] with
      | some [some maxAttempts, some initialDelay, some maxDelay] => do
          return .bounded (← maxAttempts.word32?) (← initialDelay.word64?) (← maxDelay.word64?)
      | _ => none
  | some ("indefinite", rest) =>
      match rest.fields ["backoff_us"] with
      | some [some delay] => delay.word64?.map RetryPolicy.indefinite
      | _ => none
  | _ => none

/-- A limit, or null for none. -/
def limit? : Value → Option (Option UInt64)
  | .null => some none
  | v => v.word64?.map some

/-- A field that has a standard value for when it is absent. -/
def withDefault {α : Type} (decode : Value → Option α) (standard : α) : Option Value → Option α
  | none => some standard
  | some v => decode v

/-- The names of the settings. -/
def configFields : List String :=
  ["block_size", "revoke_hash_size", "recovery_hash_size", "format", "record_width", "oom_retry",
    "record_limit", "expensive_checks"]

/-- The settings of a journal. -/
def config? (v : Value) : Option Config :=
  match v.fields configFields with
  | some [blockSize, revokeHashSize, recoveryHashSize, format, recordWidth, retry, recordLimit,
      expensiveChecks] => do
      let standard : Config := {}
      return {
        blockSize := ← withDefault blockSize? standard.blockSize blockSize
        revokeHashSize := ← withDefault Value.word64? standard.revokeHashSize revokeHashSize
        recoveryHashSize := ← withDefault Value.word64? standard.recoveryHashSize recoveryHashSize
        format := ← withDefault format? standard.format format
        recordWidth := ← withDefault recordWidth? standard.recordWidth recordWidth
        retry := ← withDefault retryPolicy? standard.retry retry
        recordLimit := ← withDefault limit? standard.recordLimit recordLimit
        expensiveChecks := ← withDefault Value.bool? standard.expensiveChecks expensiveChecks }
  | _ => none

/-- The words of a structure that holds nothing else and has all of its fields. -/
def words64? (names : List String) (v : Value) : Option (List UInt64) :=
  match v.fields names with
  | some found => found.mapM (fun field => field.bind Value.word64?)
  | none => none

/-- The names of the counters of a commit. -/
def writeStatsFields : List String := ["records", "written", "dropped", "descriptors"]

/-- The counters of a commit. -/
def writeStats? (v : Value) : Option WriteStats :=
  match words64? writeStatsFields v with
  | some [records, written, dropped, descriptors] =>
      some ⟨records.toNat, written.toNat, dropped.toNat, descriptors.toNat⟩
  | _ => none

/-- The names of the counters of a journal. -/
def countersFields : List String :=
  ["revokes", "refreshed", "cancel_fast_path", "cancels", "records_written", "records_dropped",
    "descriptors_written"]

/-- The counters of a journal. -/
def counters? (v : Value) : Option Counters :=
  match words64? countersFields v with
  | some [revokes, refreshed, fastCancels, cancels, written, dropped, descriptors] =>
      some ⟨revokes, refreshed, fastCancels, cancels, written, dropped, descriptors⟩
  | _ => none

/-- The names of the counters of a recovery. -/
def replayStatsFields : List String :=
  ["revoke_blocks", "revoke_records", "non_revoke_blocks", "replayed_blocks",
    "skipped_revoked_blocks"]

/-- The counters of a recovery. -/
def replayStats? (v : Value) : Option ReplayStats :=
  match words64? replayStatsFields v with
  | some [revokeBlocks, revokeRecords, otherBlocks, replayed, skipped] =>
      some ⟨revokeBlocks, revokeRecords, otherBlocks, replayed, skipped⟩
  | _ => none

end BlockJournal.Wire
