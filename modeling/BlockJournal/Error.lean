import BlockJournal.RecordWidth

/-!
# Errors

Why an operation on the journal, its buffers or its device can fail.

An error is a cause. It falls into one of seven classes, and the class decides
what the rest of a system sees of it: the number a system call would return,
whether trying again can help, and the words in front of the details. Only
running out of memory is worth a second try.

## Main definitions

* `ErrorClass`: The classes, with `errno`, `isTransient` and `describe`.
* `Error`: The causes.
* `Error.category`, `Error.detail`: The class and the details of a cause.
* `Error.message`: The full text of a cause.
-/

namespace BlockJournal

/-- The classes of errors. -/
inductive ErrorClass where
  /-- The device failed, with the number the operating system gave if it gave one. -/
  | io (code : Option Int)
  /-- The metadata stored in a log block makes no sense. -/
  | corruption (block : BlockNumber)
  /-- An on-disk format was used wrongly. -/
  | format
  /-- Bytes could not be read, at no particular block. -/
  | parse
  /-- The journal's format cannot carry what the operation needs. -/
  | unsupportedFeature
  /-- A structural parameter is out of bounds. -/
  | invalidGeometry
  /-- No memory was left for a record or a table. -/
  | outOfMemory
  deriving DecidableEq, Repr

namespace ErrorClass

/-- The number a system call would return. -/
def errno : ErrorClass → Int
  | io code => code.getD 5
  | corruption _ => 5
  | format | parse | invalidGeometry => 22
  | unsupportedFeature => 95
  | outOfMemory => 12

/-- The test that the operation may succeed if it is tried again. -/
def isTransient : ErrorClass → Bool
  | outOfMemory => true
  | _ => false

/-- The text of an error of this class with the given details. -/
def describe (detail : String) : ErrorClass → String
  | io _ => "I/O error: " ++ detail
  | corruption block => s!"corrupt metadata at block {block}: " ++ detail
  | format => "invalid on-disk format: " ++ detail
  | parse => "parse error: " ++ detail
  | unsupportedFeature => "unsupported feature: " ++ detail
  | invalidGeometry => "invalid geometry: " ++ detail
  | outOfMemory => "out of memory: " ++ detail

end ErrorClass

/-- The places where the number of buckets of a table is given. -/
inductive HashSizeField where
  | table
  | running
  | recovery
  deriving DecidableEq, Repr

/-- The name of a place where the number of buckets is given. -/
def HashSizeField.name : HashSizeField → String
  | table => "hash_size"
  | running => "revoke_hash_size"
  | recovery => "recovery_hash_size"

/-- Why an operation failed. -/
inductive Error where
  /-- The device's block size is not a power of two. -/
  | deviceBlockSize (size : Nat)
  /-- The device has more bytes than there are addresses. -/
  | deviceTooLarge
  /-- The device has no such block. -/
  | blockOutOfRange (block : BlockNumber) (count : Nat)
  /-- The block starts at no address. -/
  | blockOffsetOverflow
  /-- The data to be written do not fill one block. -/
  | writeSize (got expected : Nat)
  /-- The device was told to fail. -/
  | writeRefused (block : BlockNumber)
  /-- The cache was given a number of bytes that is no block size. -/
  | cacheBlockSize
  /-- The blocks of the device and the buffers of the cache differ in size. -/
  | cacheMismatch (device cache : Nat)
  /-- The journal was given a number of bytes that is no block size. -/
  | journalBlockSize
  /-- The number of buckets is not a power of two. -/
  | hashSize (field : HashSizeField) (size : Nat)
  /-- The buckets would not fit into the address space. -/
  | tableTooLarge (size : Nat)
  /-- Wide records were asked of a format that cannot advertise them. -/
  | wideWithoutFeatures
  /-- Feature bits were set on a format that has none. -/
  | noFeatureFields (bits : UInt32)
  /-- The block number does not fit the width of the records. -/
  | recordTooNarrow (block : BlockNumber) (width : RecordWidth)
  /-- As many records are in use as the pool admits. -/
  | poolExhausted (inUse : Nat)
  /-- The log area is empty or reaches past the device. -/
  | logArea (first last : BlockNumber) (blocks : Nat)
  /-- Descriptors of a transaction did not reach the device. -/
  | logWriteFailed (blocks : List BlockNumber)
  /-- A revoke descriptor in the log cannot be read. -/
  | corruptRevokeBlock (logBlock : BlockNumber) (cause : FieldError)
  deriving DecidableEq, Repr

namespace Error

/-- The class of a cause. -/
def category : Error → ErrorClass
  | writeRefused _ | logWriteFailed _ => .io none
  | corruptRevokeBlock block _ => .corruption block
  | blockOutOfRange .. | blockOffsetOverflow | writeSize .. | recordTooNarrow .. => .format
  | wideWithoutFeatures | noFeatureFields _ => .unsupportedFeature
  | deviceBlockSize _ | deviceTooLarge | cacheBlockSize | cacheMismatch .. => .invalidGeometry
  | journalBlockSize | hashSize .. | logArea .. => .invalidGeometry
  | tableTooLarge _ | poolExhausted _ => .outOfMemory

/-- The details of a cause. -/
def detail : Error → String
  | deviceBlockSize size => s!"invalid block_size={size} (must be power of two)"
  | deviceTooLarge => "device size overflows usize"
  | blockOutOfRange block count => s!"block out of range: block={block} block_count={count}"
  | blockOffsetOverflow => "block offset overflow"
  | writeSize got expected => s!"write_block data size mismatch: got={got} expected={expected}"
  | writeRefused block => s!"injected write failure at block {block}"
  | cacheBlockSize => "buffer cache: " ++ FieldError.badBlockSize.message
  | cacheMismatch device cache =>
      s!"device block size {device} does not match cache block size {cache}"
  | journalBlockSize => FieldError.badBlockSize.message
  | hashSize field size => field.name ++ s!"={size} (must be a non-zero power of two)"
  | tableTooLarge size =>
      s!"revoke table with {size} buckets: memory allocation failed because the computed " ++
        "capacity exceeded the collection's maximum"
  | wideWithoutFeatures => "64-bit revoke records need a V2 journal superblock"
  | noFeatureFields bits =>
      "incompat features " ++ hexadecimal bits.toNat ++ " on a V1 journal superblock"
  | recordTooNarrow block width =>
      s!"block {block} does not fit a " ++ width.describe ++ " revoke record"
  | poolExhausted inUse => s!"revoke record pool exhausted ({inUse} records in use)"
  | logArea first last blocks => s!"log area [{first}, {last}) outside device of {blocks} blocks"
  | logWriteFailed blocks =>
      "journal log write failed for blocks [" ++
        String.intercalate ", " (blocks.map BlockNumber.describe) ++ "]"
  | corruptRevokeBlock _ cause => "revoke block: " ++ cause.message

/-- The full text of a cause. -/
def message (e : Error) : String := e.category.describe e.detail

/-- The test that the operation may succeed if it is tried again. -/
def isTransient (e : Error) : Bool := e.category.isTransient

end Error

end BlockJournal
