import BlockJournal.Bytes
import BlockJournal.Error

/-!
# Block Devices

A device in memory that reads and writes whole blocks.

The blocks lie one after the other in a single address space. Whether the
device fits into it is checked once, when the device is made; after that the
end of every block on the device is an address. A device can be told to refuse
writes, which is how a failing disk comes about, and it counts the writes that
it carried out.

## Main definitions

* `Device`: The device.
* `Device.create`: A device full of zeros.
* `Device.address`: Where a block starts.
* `Device.read`, `Device.write`: Reading and writing a block.
* `Device.contents`: Everything on a device.
-/

namespace BlockJournal

/-- A block device in memory. -/
structure Device where
  /-- The number of bytes in a block. -/
  blockSize : Nat
  /-- The blocks, one after the other. -/
  blocks : Array Bytes
  /-- The number of writes carried out, modulo the width of a word. -/
  writes : UInt64
  /-- Whether writes are refused. -/
  failing : Bool
  deriving DecidableEq, Repr

namespace Device

/-- A device full of zeros. -/
def create (blockSize blockCount : Nat) : Except Error Device :=
  if isPowerOfTwo blockSize then
    if blockSize * blockCount < addressSpace then
      .ok ⟨blockSize, Array.replicate blockCount (Bytes.zeros blockSize), 0, false⟩
    else .error .deviceTooLarge
  else .error (.deviceBlockSize blockSize)

/-- The number of blocks. -/
def blockCount (d : Device) : Nat := d.blocks.size

/-- Everything on a device. -/
def contents (d : Device) : Bytes := d.blocks.toList.flatten

/-- Make the device refuse writes, or stop doing so. -/
def setFailing (d : Device) (failing : Bool) : Device := { d with failing := failing }

/-- Where a block starts. -/
def address (d : Device) (block : BlockNumber) : Except Error Nat :=
  if block.toNat < d.blockCount then
    if block.toNat * d.blockSize < addressSpace then .ok (block.toNat * d.blockSize)
    else .error .blockOffsetOverflow
  else .error (.blockOutOfRange block d.blockCount)

/-- Read a block. -/
def read (d : Device) (block : BlockNumber) : Except Error Bytes :=
  match d.address block with
  | .error e => .error e
  | .ok _ => .ok (d.blocks.getD block.toNat [])

/-- Write a block. Nothing changes if that fails. -/
def write (d : Device) (block : BlockNumber) (data : Bytes) : Except Error Unit × Device :=
  if data.length ≠ d.blockSize then (.error (.writeSize data.length d.blockSize), d)
  else
    match d.address block with
    | .error e => (.error e, d)
    | .ok _ =>
        if d.failing then (.error (.writeRefused block), d)
        else (.ok (),
          { d with blocks := d.blocks.setIfInBounds block.toNat data, writes := d.writes + 1 })

end Device

end BlockJournal
