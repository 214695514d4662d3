import BlockJournal.FieldError

/-!
# Bytes

Strings of bytes and the big-endian numbers inside them.

A string of bytes is read with `slice` and written with `splice`, and every
field of a block goes through one of the two. The bounds are checked once, in
`bounds`, for readers and writers alike: first that the end of the field is an
address at all, then that the bytes are there.

A writer returns the bytes whether or not it succeeds. `writeFields` stops at
the first field that does not fit and keeps the ones before it, as a block
that is filled front to back does.

## Main definitions

* `Bytes`: A string of bytes.
* `Bytes.slice`, `Bytes.splice`: Reading and replacing a range.
* `Bytes.bigEndian`, `Bytes.ofBigEndian`: Numbers as bytes, highest first.
* `Bytes.range`, `Bytes.readNat`, `Bytes.writeNat`: Checked access.
* `Bytes.writeFields`: Several fields, up to the first that does not fit.
-/

namespace BlockJournal

/-- A string of bytes. -/
abbrev Bytes := List UInt8

/-- The number of addresses. An offset or a size is below it. -/
def addressSpace : Nat := UInt64.size

namespace Bytes

/-- A string of zero bytes. -/
def zeros (n : Nat) : Bytes := List.replicate n 0

/-- The bytes of a range. -/
def slice (data : Bytes) (offset len : Nat) : Bytes := (data.drop offset).take len

/-- The bytes with those from `offset` on replaced. -/
def splice (data : Bytes) (offset : Nat) (new : Bytes) : Bytes :=
  data.take offset ++ new ++ data.drop (offset + new.length)

/-- A number in `width` bytes, highest first, modulo what the bytes can hold. -/
def bigEndian : (width value : Nat) → Bytes
  | 0, _ => []
  | width + 1, value => UInt8.ofNat (value / Nat.pow 256 width) :: bigEndian width value

/-- The number that bytes stand for, highest first. -/
def ofBigEndian (data : Bytes) : Nat := data.foldl (fun n b => n * 256 + b.toNat) 0

/-- The check of a range against the bytes available. -/
def bounds (available offset len : Nat) : Except FieldError Unit :=
  if offset + len < addressSpace then
    if offset + len ≤ available then .ok () else .error (.short len offset (available - offset))
  else .error .offsetOverflow

/-- The bytes of a range, if they are there. -/
def range (data : Bytes) (offset len : Nat) : Except FieldError Bytes :=
  match bounds data.length offset len with
  | .ok () => .ok (slice data offset len)
  | .error e => .error e

/-- The number stored in `width` bytes at an offset. -/
def readNat (data : Bytes) (offset width : Nat) : Except FieldError Nat :=
  match range data offset width with
  | .ok field => .ok (ofBigEndian field)
  | .error e => .error e

/-- Store a number in `width` bytes at an offset. Nothing changes if they are not there. -/
def writeNat (data : Bytes) (offset width value : Nat) : Except FieldError Unit × Bytes :=
  match bounds data.length offset width with
  | .ok () => (.ok (), splice data offset (bigEndian width value))
  | .error e => (.error e, data)

/-- A number to be stored at an offset. -/
structure Field where
  /-- Where the field starts. -/
  offset : Nat
  /-- How many bytes it takes. -/
  width : Nat
  /-- The number it holds. -/
  value : Nat
  deriving DecidableEq, Repr

/-- Store fields in order, up to the first that does not fit. -/
def writeFields (data : Bytes) : List Field → Except FieldError Unit × Bytes
  | [] => (.ok (), data)
  | f :: rest =>
      match writeNat data f.offset f.width f.value with
      | (.ok (), data) => writeFields data rest
      | (.error e, data) => (.error e, data)

end Bytes

end BlockJournal
