import BlockJournal.FieldError

/-!
# Blocks

Block numbers and block sizes.

A block number is a 64-bit word, since it is stored, hashed and compared as
one. A block size carries the proof that it is one of the seven sizes a
journal works with, so a function that takes a `BlockSize` never has to check
it again.

## Main definitions

* `isPowerOfTwo`: The test every size in the journal has to pass.
* `BlockNumber`: The address of a block.
* `BlockSize`: The number of bytes in a block.
* `BlockSize.ofNat?`: The block size with a given number of bytes.
-/

namespace BlockJournal

/-- The test for a power of two. Zero fails it, since its logarithm is zero and
    the zeroth power is one. -/
def isPowerOfTwo (n : Nat) : Bool := Nat.pow 2 n.log2 == n

/-- The address of a block on the device. -/
structure BlockNumber where
  /-- The address as a word. -/
  val : UInt64
  deriving DecidableEq, Repr, Inhabited

namespace BlockNumber

/-- The block at a given address, taken modulo the width of a block number. -/
def ofNat (n : Nat) : BlockNumber := ⟨UInt64.ofNat n⟩

/-- The address as a number. -/
def toNat (b : BlockNumber) : Nat := b.val.toNat

/-- The address in 32 bits, refused if it needs more. -/
def narrow (b : BlockNumber) : Except FieldError UInt32 :=
  if b.toNat < UInt32.size then .ok (UInt32.ofNat b.toNat) else .error .blockTooWide

instance : ToString BlockNumber := ⟨fun b => toString b.toNat⟩

/-- The address as a diagnostic shows it. -/
def describe (b : BlockNumber) : String := "BlockNumber(" ++ toString b ++ ")"

end BlockNumber

/-- A number of bytes is a block size if it is a power of two from 1024 to 65536. -/
abbrev IsBlockSize (n : Nat) : Prop := isPowerOfTwo n = true ∧ 1024 ≤ n ∧ n ≤ 65536

/-- The number of bytes in a block of a journal. -/
structure BlockSize where
  /-- The size in bytes. -/
  bytes : Nat
  /-- The size is one a journal works with. -/
  valid : IsBlockSize bytes
  deriving DecidableEq, Repr

/-- The block size with a given number of bytes. -/
def BlockSize.ofNat? (n : Nat) : Except FieldError BlockSize :=
  if h : IsBlockSize n then .ok ⟨n, h⟩ else .error .badBlockSize

instance : ToString BlockSize := ⟨fun s => toString s.bytes⟩

end BlockJournal
