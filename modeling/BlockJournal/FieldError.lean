/-!
# Field Errors

What can be wrong with one field of a journal block.

A field error is a cause, not a text. Every way in which a slice of bytes, a
header or an entry can be refused is a constructor, and `FieldError.message`
is the only place where wording is chosen. `FieldError.kind` sorts the causes
into the four families that a reader of a report tells apart: bytes missing,
a wrong magic number, a field with an impossible value, and a number that does
not fit the width of its field.

## Main definitions

* `hexadecimal`: A number in lower-case hexadecimal.
* `FieldError`: The causes.
* `FieldError.kind`: The family of a cause.
* `FieldError.message`: The wording of a cause.
-/

namespace BlockJournal

/-- A number in lower-case hexadecimal, with its marker in front. -/
def hexadecimal (n : Nat) : String := "0x" ++ String.ofList (Nat.toDigits 16 n)

/-- Why a field cannot be read or written. -/
inductive FieldError where
  /-- Fewer bytes are left at the offset than the field needs. -/
  | short (needed offset available : Nat)
  /-- The block does not start with the journal's magic number. -/
  | badMagic (expected found : Nat)
  /-- The end of the field lies outside the address space. -/
  | offsetOverflow
  /-- The number is not a block size. -/
  | badBlockSize
  /-- The header belongs to another kind of block. -/
  | notRevokeBlock
  /-- The byte count of a revoke block does not cover its own header. -/
  | countBelowHeader
  /-- The byte count of a revoke block reaches past its end. -/
  | countBeyondBlock
  /-- The byte count of a revoke block ends inside an entry. -/
  | countMisaligned
  /-- The block number needs more than 32 bits. -/
  | blockTooWide
  /-- The byte count needs more than 32 bits. -/
  | countTooWide
  deriving DecidableEq, Repr

/-- The families of field errors. -/
inductive FieldError.Kind where
  | insufficientData
  | invalidMagic
  | invalidField
  | integerConversion
  deriving DecidableEq, Repr

namespace FieldError

/-- The family a cause belongs to. -/
def kind : FieldError → Kind
  | short .. => .insufficientData
  | badMagic .. => .invalidMagic
  | offsetOverflow | badBlockSize | notRevokeBlock => .invalidField
  | countBelowHeader | countBeyondBlock | countMisaligned => .invalidField
  | blockTooWide | countTooWide => .integerConversion

/-- A field and what is the matter with it. -/
private def invalid (field reason : String) : String :=
  "invalid field: " ++ field ++ " (" ++ reason ++ ")"

/-- A field whose number does not fit. -/
private def unfit (field : String) : String := "integer conversion failed: " ++ field

/-- The wording of a cause. -/
def message : FieldError → String
  | short needed offset available =>
      s!"insufficient data: need {needed} bytes at offset {offset}, got {available}"
  | badMagic expected found =>
      "invalid magic: expected " ++ hexadecimal expected ++ ", got " ++ hexadecimal found
  | offsetOverflow => invalid "offset" "overflow"
  | badBlockSize => invalid "block_size" "must be power of two in 1024..=65536"
  | notRevokeBlock => invalid "h_blocktype" "not a revoke block"
  | countBelowHeader => invalid "r_count" "smaller than revoke header"
  | countBeyondBlock => invalid "r_count" "exceeds block size"
  | countMisaligned => invalid "r_count" "not a whole number of entries"
  | blockTooWide => unfit "block_number"
  | countTooWide => unfit "r_count"

end FieldError

end BlockJournal
