import BlockJournal.Block

/-!
# Record Widths

How many bytes a revoked block number takes in a descriptor.

Narrow entries hold 32-bit block numbers. Wide ones hold 64-bit numbers, which
the journal has to advertise as a feature. Everything else about a descriptor
is the same for both.

## Main definitions

* `RecordWidth`: The two widths.
* `RecordWidth.fits`: Which block numbers an entry can hold.
* `RecordWidth.entriesPerBlock`: How many entries a descriptor holds.
-/

namespace BlockJournal

/-- The number of bytes before the first entry of a revoke descriptor. -/
def revokeHeaderSize : Nat := 16

/-- The width of an entry in a revoke descriptor. -/
inductive RecordWidth where
  /-- Entries of 32 bits. -/
  | narrow
  /-- Entries of 64 bits. -/
  | wide
  deriving DecidableEq, Repr, Inhabited

namespace RecordWidth

/-- The number of bytes an entry takes. -/
def bytes : RecordWidth → Nat
  | narrow => 4
  | wide => 8

/-- The test that a block number can be stored in an entry. -/
def fits (w : RecordWidth) (b : BlockNumber) : Bool := b.toNat < Nat.pow 256 w.bytes

/-- The number of entries a descriptor of `blockSize` bytes holds. -/
def entriesPerBlock (w : RecordWidth) (blockSize : Nat) : Nat :=
  (blockSize - revokeHeaderSize) / w.bytes

/-- The width as a diagnostic shows it. -/
def describe : RecordWidth → String
  | narrow => "Narrow"
  | wide => "Wide"

end RecordWidth

end BlockJournal
