import BlockJournal.Bytes
import BlockJournal.RecordWidth
import BlockJournal.Tid

/-!
# Descriptors

The layout of the metadata blocks in the log, and of revoke descriptors in
particular.

Every metadata block starts with the same header of three big-endian 32-bit
fields: the magic number at offset 0, the kind of block at offset 4 and the
transaction id at offset 8. A revoke descriptor goes on with the number of
bytes in use at offset 12, counted from the start of the block, and its
entries from offset 16 on. Bytes past the count mean nothing.

A descriptor is written piece by piece: the header when it is opened, with a
count of zero, then the entries, and the count when it is closed. Entries are
stored one at a time, or checked one at a time and stored together.
`RevokeBlock.parse` reads it back in one go and refuses everything that the
writers could not have left behind.

## Main definitions

* `BlockKind`: The kinds of metadata block.
* `Header`: The fields all of them start with.
* `openRevoke`, `writeEntry`, `closeRevoke`: Writing a revoke descriptor.
* `checkEntry`, `writeEntries`: Writing its entries together.
* `RevokeBlock.parse`: Reading one.
* `isRevokeBlock`: The test a scan of the log makes before it reads a block.
-/

namespace BlockJournal

/-- The number every metadata block starts with. -/
def magicNumber : UInt32 := 0xC03B3998

/-- The number of bytes in the header of a metadata block. -/
def headerSize : Nat := 12

/-- The kinds of metadata block. -/
inductive BlockKind where
  | descriptor
  | commit
  | superblockV1
  | superblockV2
  | revoke
  deriving DecidableEq, Repr

/-- The number that stands for a kind of block. -/
def BlockKind.code : BlockKind → UInt32
  | descriptor => 1
  | commit => 2
  | superblockV1 => 3
  | superblockV2 => 4
  | revoke => 5

/-- The header of a metadata block, less its magic number. -/
structure Header where
  /-- The kind of block, as the number stored in it. -/
  blockType : UInt32
  /-- The transaction the block belongs to. -/
  sequence : Tid
  deriving DecidableEq, Repr

namespace Header

/-- The fields of a header. -/
def fields (h : Header) : List Bytes.Field :=
  [⟨0, 4, magicNumber.toNat⟩, ⟨4, 4, h.blockType.toNat⟩, ⟨8, 4, h.sequence.toNat⟩]

/-- Store a header at the start of a block. -/
def write (h : Header) (data : Bytes) : Except FieldError Unit × Bytes :=
  Bytes.writeFields data h.fields

/-- Read the header of a block. -/
def read (data : Bytes) : Except FieldError Header :=
  match Bytes.readNat data 0 4 with
  | .error e => .error e
  | .ok found =>
      if found = magicNumber.toNat then
        match Bytes.readNat data 4 4, Bytes.readNat data 8 4 with
        | .ok blockType, .ok sequence => .ok ⟨UInt32.ofNat blockType, Tid.ofNat sequence⟩
        | .error e, _ => .error e
        | .ok _, .error e => .error e
      else .error (.badMagic magicNumber.toNat found)

end Header

/-- The offset of the byte count in a revoke descriptor. -/
def countOffset : Nat := headerSize

/-- The test that a block starts with the header of a revoke descriptor. -/
def isRevokeBlock (data : Bytes) : Bool :=
  match Header.read data with
  | .ok h => h.blockType == BlockKind.revoke.code
  | .error _ => false

/-- Start a revoke descriptor. Its count stays zero until it is closed. -/
def openRevoke (data : Bytes) (sequence : Tid) : Except FieldError Unit × Bytes :=
  Bytes.writeFields data
    (Header.fields ⟨BlockKind.revoke.code, sequence⟩ ++ [⟨countOffset, 4, 0⟩])

/-- The check that an entry can be stored at an offset of a block that has so many bytes. -/
def checkEntry (available offset : Nat) (block : BlockNumber) (width : RecordWidth) :
    Except FieldError Unit :=
  if width.fits block then Bytes.bounds available offset width.bytes else .error .blockTooWide

/-- The bytes of an entry. -/
def entryBytes (width : RecordWidth) (block : BlockNumber) : Bytes :=
  Bytes.bigEndian width.bytes block.toNat

/-- Store an entry of a revoke descriptor at an offset. -/
def writeEntry (data : Bytes) (offset : Nat) (block : BlockNumber) (width : RecordWidth) :
    Except FieldError Unit × Bytes :=
  match checkEntry data.length offset block width with
  | .ok () => (.ok (), data.splice offset (entryBytes width block))
  | .error e => (.error e, data)

/-- Store entries one after the other from the end of the header on, all at once.
    Each of them was checked before. -/
def writeEntries (data : Bytes) (blocks : List BlockNumber) (width : RecordWidth) : Bytes :=
  data.splice revokeHeaderSize (blocks.flatMap (entryBytes width))

/-- Store the number of bytes in use, header included, in a revoke descriptor. -/
def closeRevoke (data : Bytes) (used : Nat) : Except FieldError Unit × Bytes :=
  if used < UInt32.size then Bytes.writeNat data countOffset 4 used else (.error .countTooWide, data)

/-- What a revoke descriptor says: these blocks were revoked in this transaction. -/
structure RevokeBlock where
  /-- The transaction that revoked the blocks. -/
  sequence : Tid
  /-- The blocks, in the order of the entries. -/
  blocks : List BlockNumber
  deriving DecidableEq, Repr

namespace RevokeBlock

/-- Read consecutive entries from an offset on, where `rest` is what the block holds
    from there. -/
def readEntries (width : RecordWidth) :
    (count offset : Nat) → (rest : Bytes) → Except FieldError (List BlockNumber)
  | 0, _, _ => .ok []
  | count + 1, offset, rest =>
      let field := rest.take width.bytes
      if field.length = width.bytes then
        match readEntries width count (offset + width.bytes) (rest.drop width.bytes) with
        | .error e => .error e
        | .ok blocks => .ok (BlockNumber.ofNat (Bytes.ofBigEndian field) :: blocks)
      else .error (.short width.bytes offset field.length)

/-- Read a revoke descriptor. -/
def parse (data : Bytes) (width : RecordWidth) : Except FieldError RevokeBlock :=
  match Header.read data with
  | .error e => .error e
  | .ok header =>
      if header.blockType ≠ BlockKind.revoke.code then .error .notRevokeBlock
      else
        match Bytes.readNat data countOffset 4 with
        | .error e => .error e
        | .ok used =>
            if used < revokeHeaderSize then .error .countBelowHeader
            else if data.length < used then .error .countBeyondBlock
            else if (used - revokeHeaderSize) % width.bytes ≠ 0 then .error .countMisaligned
            else
              match readEntries width ((used - revokeHeaderSize) / width.bytes) revokeHeaderSize
                  (data.drop revokeHeaderSize) with
              | .error e => .error e
              | .ok blocks => .ok ⟨header.sequence, blocks⟩

end RevokeBlock

end BlockJournal
