import BlockJournal.Wire.Decode

/-!
# Encoding

Writing settings and counters as wire values.

Structures are written as objects with all their fields, under the names they
are read by. Alternatives are written as their names, and a policy for
allocations as an object with its name in it.

## Main definitions

* `ofFormat`, `ofRecordWidth`, `ofRetryPolicy`: Alternatives.
* `ofConfig`: Settings.
* `ofWriteStats`, `ofCounters`, `ofReplayStats`: Counters.
-/

namespace BlockJournal.Wire

/-- A structure that holds nothing but numbers. -/
def ofNats (names : List String) (numbers : List Nat) : Value :=
  .object (names.zip (numbers.map Value.ofNat))

/-- A format of the superblock. -/
def ofFormat : JournalFormat → Value
  | .v1 => .text "v1"
  | .v2 => .text "v2"

/-- A width of records. -/
def ofRecordWidth : RecordWidth → Value
  | .narrow => .text "narrow"
  | .wide => .text "wide"

/-- A policy for allocations. -/
def ofRetryPolicy : RetryPolicy → Value
  | .fail => .object [("policy", .text "fail")]
  | .bounded maxAttempts initialDelay maxDelay =>
      .object
        [("policy", .text "bounded"), ("max_attempts", .ofNat maxAttempts.toNat),
          ("initial_backoff_us", .ofNat initialDelay.toNat),
          ("max_backoff_us", .ofNat maxDelay.toNat)]
  | .indefinite delay =>
      .object [("policy", .text "indefinite"), ("backoff_us", .ofNat delay.toNat)]

/-- A limit, or null for none. -/
def ofLimit : Option UInt64 → Value
  | none => .null
  | some limit => .ofNat limit.toNat

/-- The settings of a journal. -/
def ofConfig (c : Config) : Value :=
  .object
    (configFields.zip
      [.ofNat c.blockSize.toNat, .ofNat c.revokeHashSize.toNat, .ofNat c.recoveryHashSize.toNat,
        ofFormat c.format, ofRecordWidth c.recordWidth, ofRetryPolicy c.retry,
        ofLimit c.recordLimit, .bool c.expensiveChecks])

/-- The counters of a commit. -/
def ofWriteStats (s : WriteStats) : Value :=
  ofNats writeStatsFields [s.records, s.written, s.dropped, s.descriptors]

/-- The counters of a journal. -/
def ofCounters (c : Counters) : Value :=
  ofNats countersFields
    ([c.revokes, c.refreshed, c.fastCancels, c.cancels, c.recordsWritten, c.recordsDropped,
      c.descriptorsWritten].map UInt64.toNat)

/-- The counters of a recovery. -/
def ofReplayStats (s : ReplayStats) : Value :=
  ofNats replayStatsFields
    ([s.revokeBlocks, s.revokeRecords, s.otherBlocks, s.replayed, s.skipped].map UInt64.toNat)

end BlockJournal.Wire
