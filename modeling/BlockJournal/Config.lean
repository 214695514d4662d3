import BlockJournal.Retry

/-!
# Configuration

The settings of a journal and the checks they have to pass.

Settings are the raw words that a configuration file can hold. `Config.check`
is what turns them into a journal's parameters: it refuses block sizes and
numbers of buckets that are out of bounds, and wide records on a format
without feature fields, in this order.

## Main definitions

* `JournalFormat`: The formats of the journal superblock.
* `Feature`: What a journal can advertise in its superblock.
* `Config`: The settings.
* `Config.check`: The block size of settings that are in order.
-/

namespace BlockJournal

/-- The format of the journal superblock. -/
inductive JournalFormat where
  /-- The first format, without feature fields. -/
  | v1
  /-- The second format, with feature fields. -/
  | v2
  deriving DecidableEq, Repr, Inhabited

/-- The format as a diagnostic shows it. -/
def JournalFormat.describe : JournalFormat → String
  | v1 => "V1"
  | v2 => "V2"

/-- What a reader of the journal has to understand. -/
inductive Feature where
  /-- The log may hold revoke descriptors. -/
  | revoke
  /-- Block numbers in the log are 64 bits wide. -/
  | wideBlocks
  deriving DecidableEq, Repr

/-- The bit of the superblock that advertises a feature. -/
def Feature.bit : Feature → UInt32
  | revoke => 1
  | wideBlocks => 2

/-- The number of buckets of a table that was not given another. -/
def defaultHashSize : UInt64 := 256

/-- The settings of a journal. -/
structure Config where
  /-- The number of bytes in a block. -/
  blockSize : UInt32 := 4096
  /-- The number of buckets of the running transaction's table. -/
  revokeHashSize : UInt64 := defaultHashSize
  /-- The number of buckets of a recovery table. -/
  recoveryHashSize : UInt64 := defaultHashSize
  /-- The format of the superblock. -/
  format : JournalFormat := .v2
  /-- The width of the entries in revoke descriptors. -/
  recordWidth : RecordWidth := .narrow
  /-- What to do when a record cannot be allocated. -/
  retry : RetryPolicy := .standard
  /-- The number of records that may be alive at once, if there is a limit. -/
  recordLimit : Option UInt64 := none
  /-- Whether to make the checks that cost a lookup of their own. -/
  expensiveChecks : Bool := false
  deriving DecidableEq, Repr, Inhabited

/-- Refuse a number of buckets that is not a power of two. -/
def checkHashSize (field : HashSizeField) (size : Nat) : Except Error Unit :=
  if isPowerOfTwo size then .ok () else .error (.hashSize field size)

namespace Config

/-- The block size of settings that are in order. -/
def check (c : Config) : Except Error BlockSize :=
  match BlockSize.ofNat? c.blockSize.toNat with
  | .error _ => .error .journalBlockSize
  | .ok blockSize =>
      match checkHashSize .running c.revokeHashSize.toNat with
      | .error e => .error e
      | .ok () =>
          match checkHashSize .recovery c.recoveryHashSize.toNat with
          | .error e => .error e
          | .ok () =>
              match c.recordWidth, c.format with
              | .wide, .v1 => .error .wideWithoutFeatures
              | _, _ => .ok blockSize

/-- The feature bits that revoke descriptors of this width need. -/
def neededFeatures (c : Config) : UInt32 :=
  match c.recordWidth with
  | .narrow => Feature.revoke.bit
  | .wide => Feature.revoke.bit ||| Feature.wideBlocks.bit

/-- A limit as a diagnostic shows it. -/
private def describeLimit : Option UInt64 → String
  | none => "None"
  | some limit => s!"Some({limit})"

/-- The settings as a diagnostic shows them. -/
def describe (c : Config) : String :=
  s!"JournalConfig \x7b block_size: {c.blockSize}, revoke_hash_size: {c.revokeHashSize}, " ++
    s!"recovery_hash_size: {c.recoveryHashSize}, format: " ++ c.format.describe ++
    ", record_width: " ++ c.recordWidth.describe ++ ", oom_retry: " ++ c.retry.describe ++
    ", record_limit: " ++ describeLimit c.recordLimit ++
    s!", expensive_checks: {c.expensiveChecks} \x7d"

end Config

end BlockJournal
