import BlockJournal.Buffer
import BlockJournal.Device

/-!
# The Buffer Store

All buffers alive, and the cache that maps blocks to some of them.

A block may have several buffers: the one the cache maps it to, ones that were
evicted while somebody still held them, and ones that were never in the cache.
They are different buffers with marks of their own, so a buffer is told from
another by its `BufferId` and never by its block. The cache is an index from
blocks to ids. A buffer carries the hashed mark exactly as long as the index
maps its block to it.

Ids are positions in one array and are never used again. An id that was not
given out stands for an empty buffer that nothing can change.

## Main definitions

* `BufferId`: What tells buffers apart.
* `Store`: The buffers and the index.
* `Store.create`: The store of a cache with a given block size.
* `Store.detached`, `Store.getOrCreate`, `Store.read`: Where buffers come from.
* `Store.lookup`, `Store.evict`: The index.
-/

namespace BlockJournal

/-- What tells buffers apart. -/
abbrev BufferId := Nat

/-- All buffers alive, and which of them the cache maps blocks to. -/
structure Store where
  /-- The number of bytes in a buffer of the cache. -/
  blockSize : BlockSize
  /-- The buffers the cache maps blocks to. -/
  index : List (BlockNumber × BufferId)
  /-- The buffers. -/
  buffers : Array Buffer
  deriving DecidableEq, Repr

namespace Store

/-- The store of an empty cache. -/
def create (blockSize : Nat) : Except Error Store :=
  match BlockSize.ofNat? blockSize with
  | .ok size => .ok ⟨size, [], #[]⟩
  | .error _ => .error .cacheBlockSize

/-- The number of blocks in the cache. -/
def len (s : Store) : Nat := s.index.length

/-- The buffer with an id. -/
def get (s : Store) (id : BufferId) : Buffer := s.buffers.getD id default

/-- Change the buffer with an id. -/
def modify (s : Store) (id : BufferId) (f : Buffer → Buffer) : Store :=
  { s with buffers := s.buffers.modify id f }

/-- Add a buffer. -/
def add (s : Store) (b : Buffer) : BufferId × Store :=
  (s.buffers.size, { s with buffers := s.buffers.push b })

/-- Add a buffer full of zeros that is not in the cache. -/
def detached (s : Store) (block : BlockNumber) (size : Nat) : BufferId × Store :=
  s.add (Buffer.detached block size)

/-- The buffer the cache maps a block to. -/
def mapped? (s : Store) (block : BlockNumber) : Option BufferId := s.index.lookup block

/-- The buffer the cache maps a block to, if it has the given size. -/
def lookup (s : Store) (block : BlockNumber) (size : Nat) : Option BufferId :=
  if size = s.blockSize.bytes then s.mapped? block else none

/-- Put a new buffer into the cache, unless the block has one there. -/
def insertNew (s : Store) (block : BlockNumber) (data : Bytes) : BufferId × Store :=
  match s.mapped? block with
  | some id => (id, s)
  | none =>
      match s.add (Buffer.cached block s.blockSize.bytes data) with
      | (id, s) => (id, { s with index := (block, id) :: s.index })

/-- The buffer of a block in the cache, full of zeros if it was not there. -/
def getOrCreate (s : Store) (block : BlockNumber) : BufferId × Store :=
  s.insertNew block (Bytes.zeros s.blockSize.bytes)

/-- The test that a read of a block goes to the device. -/
def reachesDevice (s : Store) (device : Device) (block : BlockNumber) : Bool :=
  (s.mapped? block).isNone && device.blockSize == s.blockSize.bytes

/-- The buffer of a block in the cache, read from the device if it was not there.
    `during` is what others do to the store while the device is at work: if they
    put the block into the cache, their buffer stays. -/
def read (s : Store) (device : Device) (block : BlockNumber) (during : Store → Store) :
    Except Error BufferId × Store :=
  match s.mapped? block with
  | some id => (.ok id, s)
  | none =>
      if s.reachesDevice device block then
        match device.read block, during s with
        | .error e, s => (.error e, s)
        | .ok data, s =>
            match s.insertNew block data with
            | (id, s) => (.ok id, s)
      else (.error (.cacheMismatch device.blockSize s.blockSize.bytes), s)

/-- Drop a block from the cache. Its buffer stays alive for those who hold it. -/
def evict (s : Store) (block : BlockNumber) : Option BufferId × Store :=
  match s.mapped? block with
  | none => (none, s)
  | some id =>
      (some id,
        { s.modify id (·.setHashed false) with
          index := s.index.filter (fun entry => entry.1 ≠ block) })

end Store

end BlockJournal
