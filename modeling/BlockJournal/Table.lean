import BlockJournal.Bytes
import BlockJournal.Config
import BlockJournal.Pool
import BlockJournal.Rule
import BlockJournal.Tid

/-!
# Revoke Tables

Hash tables from revoked blocks to the transactions that revoked them.

A table has a fixed number of buckets, a power of two, and keeps the records of
a bucket in a chain. New records go to the end of their chain. Removing a
record moves the last record of the chain into its place, so a chain has no
gaps and only the last record of a chain ever changes its position.

A handle is a bucket and a position in its chain. Nothing ties it to a table or
to a record: one kept past a change of the chain, or used with another table,
finds whatever is at that position or nothing at all.

The records of a table are charged to a pool. The pool is not part of the
table, since tables share it; the operations that create and free records take
it and give it back.

## Main definitions

* `Record`, `Handle`: What a table holds, and where.
* `bucketIndex`: The bucket of a block.
* `Table`: The table, with `insert`, `find`, `get?`, `set`, `remove`, `lookup`.
* `Table.records`: Everything in a table, in the order in which it is drained.
* `Table.discard`, `Table.destroy`: The end of a table.
-/

namespace BlockJournal

/-- A revoked block and the transaction that revoked it. -/
structure Record where
  /-- The block. -/
  block : BlockNumber
  /-- The transaction. -/
  sequence : Tid
  deriving DecidableEq, Repr, Inhabited

/-- A position in a table. -/
structure Handle where
  /-- The bucket. -/
  bucket : Nat
  /-- The position in the chain of the bucket. -/
  slot : Nat
  deriving DecidableEq, Repr

/-- The bits of a block number mixed, so that blocks that differ in their high
    bits only, or by multiples of the number of buckets, do not end up together. -/
def mixedBits (b : BlockNumber) : UInt64 :=
  (b.val ^^^ (b.val >>> 13) ^^^ (b.val >>> 29)) * 0x9E3779B97F4A7C15

/-- The bucket of a block among `2 ^ bits`: the highest `bits` of its mixed bits. -/
def bucketIndex (b : BlockNumber) (bits : Nat) : Nat :=
  if bits = 0 then 0 else (mixedBits b).toNat >>> (64 - bits)

/-- A number of bits that is larger than a word. -/
structure TooManyBits where
  /-- The number of bits asked for. -/
  bits : Nat
  deriving DecidableEq, Repr

/-- The words for a number of bits that is larger than a word. -/
def TooManyBits.message (_ : TooManyBits) : String := "attempt to subtract with overflow"

/-- The bucket of a block among `2 ^ bits`, for numbers of bits that may be too large. -/
def bucketIndex? (b : BlockNumber) (bits : Nat) : Except TooManyBits Nat :=
  if bits ≤ 64 then .ok (bucketIndex b bits) else .error ⟨bits⟩

/-- A chain with the last record moved to the given position. -/
def swapRemove {α : Type} (chain : List α) (slot : Nat) : List α :=
  match chain.getLast? with
  | none => []
  | some last => (chain.set slot last).dropLast

/-- A hash table of revoke records. -/
structure Table where
  /-- The logarithm of the number of buckets. -/
  bits : Nat
  /-- The chains of the buckets. -/
  buckets : Array (List Record)
  /-- The number of records. -/
  len : Nat
  deriving DecidableEq, Repr

namespace Table

/-- The number of bytes an empty bucket takes. -/
def bucketBytes : Nat := 24

/-- An empty table. The array of buckets can take at most half of the address space. -/
def create (hashSize : Nat) : Except Error Table :=
  match checkHashSize .table hashSize with
  | .error e => .error e
  | .ok () =>
      if hashSize * bucketBytes < addressSpace / 2 then
        .ok ⟨hashSize.log2, Array.replicate hashSize [], 0⟩
      else .error (.tableTooLarge hashSize)

/-- The number of buckets. -/
def hashSize (t : Table) : Nat := t.buckets.size

/-- The test that a table holds no records. -/
def isEmpty (t : Table) : Bool := t.len == 0

/-- The chain of a bucket, empty where there is no such bucket. -/
def chain (t : Table) (bucket : Nat) : List Record := t.buckets.getD bucket []

/-- The bucket of a block. -/
def bucketOf (t : Table) (b : BlockNumber) : Nat := bucketIndex b t.bits

/-- The number of records in each bucket. -/
def bucketLengths (t : Table) : List Nat := t.buckets.toList.map List.length

/-- Everything in a table, in the order in which it is drained: the buckets one
    after the other, the newest record of each first. -/
def records (t : Table) : List Record := t.buckets.toList.flatMap List.reverse

/-- Add a record, charged to a pool. Whether the block has one already is not looked at. -/
def insert (t : Table) (p : Pool) (block : BlockNumber) (sequence : Tid) :
    Except Error Handle × Table × Pool :=
  match p.charge with
  | (.error e, p) => (.error e, t, p)
  | (.ok (), p) =>
      let bucket := t.bucketOf block
      (.ok ⟨bucket, (t.chain bucket).length⟩,
        { t with
          buckets := t.buckets.modify bucket (· ++ [⟨block, sequence⟩])
          len := t.len + 1 },
        p)

/-- The position of the first record of a block. -/
def find (t : Table) (block : BlockNumber) : Option Handle :=
  let bucket := t.bucketOf block
  match (t.chain bucket).findIdx? (fun r => r.block = block) with
  | some slot => some ⟨bucket, slot⟩
  | none => none

/-- The record at a position. -/
def get? (t : Table) (h : Handle) : Option Record := (t.chain h.bucket)[h.slot]?

/-- Change the transaction of the record at a position. -/
def set (t : Table) (h : Handle) (sequence : Tid) : Table :=
  { t with
    buckets := t.buckets.modify h.bucket
      (fun chain => chain.modify h.slot (fun r => { r with sequence := sequence })) }

/-- The first record of a block. -/
def lookup (t : Table) (block : BlockNumber) : Option Record :=
  match t.find block with
  | some h => t.get? h
  | none => none

/-- Remove the record at a position and give it back to the pool. -/
def remove (t : Table) (p : Pool) (h : Handle) : Option Record × Table × Pool :=
  match t.get? h with
  | none => (none, t, p)
  | some r =>
      (some r,
        { t with
          buckets := t.buckets.modify h.bucket (swapRemove · h.slot)
          len := t.len - 1 },
        p.release 1)

/-- The table with all its chains emptied. -/
def emptied (t : Table) : Table := { t with buckets := t.buckets.map (fun _ => []), len := 0 }

/-- Free every record. -/
def clear (t : Table) (p : Pool) : Table × Pool := (t.emptied, p.release t.len)

/-- The end of a table that nobody asked about: its records go back to the pool. -/
def discard (t : Table) (p : Pool) : Pool := p.release t.len

/-- The end of a table that should be empty. A build that stops discards the table as
    it is, and any other clears it first. -/
def destroy (build : Build) (t : Table) (p : Pool) : Except Violation Bool × Pool :=
  match build.check .nonEmptyTable t.isEmpty with
  | .error v => (.error v, t.discard p)
  | .ok held =>
      match t.clear p with
      | (t, p) => (.ok held, t.discard p)

end Table

end BlockJournal
