import BlockJournal.Table

/-!
# Draining a Table

Taking the records of a table out one by one.

A drain walks over the buckets in order and takes the records of each from the
end of its chain. It can be given up at any point; what is left in the table
then goes back to the pool, so a table is empty after a drain however much of
it was taken.

## Main definitions

* `Drain`: A drain under way.
* `Drain.firstFilled`: The search for a bucket that has records.
* `Drain.next`: The next record.
* `Drain.take`: The next few records.
* `Drain.finish`: Giving up the rest.
-/

namespace BlockJournal

/-- A drain under way. -/
structure Drain where
  /-- The table, less what was taken. -/
  table : Table
  /-- The first bucket that may have records left. -/
  bucket : Nat
  deriving DecidableEq, Repr

/-- Begin to take out the records of a table. -/
def Table.drain (t : Table) : Drain := ⟨t, 0⟩

namespace Drain

/-- The number of records still to come. -/
def len (d : Drain) : Nat := d.table.len

/-- The first of `count` buckets, from the given one on, that has records. -/
def firstFilled (buckets : Array (List Record)) : (count bucket : Nat) → Option Nat
  | 0, _ => none
  | count + 1, bucket =>
      if (buckets.getD bucket []).isEmpty then firstFilled buckets count (bucket + 1)
      else some bucket

/-- Take the next record and give it back to the pool. -/
def next : Drain → Pool → Option Record × Drain × Pool
  | ⟨⟨bits, buckets, len⟩, bucket⟩, p =>
      match firstFilled buckets (buckets.size - bucket) bucket with
      | none => (none, ⟨⟨bits, buckets, len⟩, max bucket buckets.size⟩, p)
      | some bucket =>
          let newest := (buckets.getD bucket []).getLast?
          (newest, ⟨⟨bits, buckets.modify bucket List.dropLast, len - 1⟩, bucket⟩, p.release 1)

/-- Take up to a number of records. -/
def take : (count : Nat) → Drain → Pool → List Record × Drain × Pool
  | 0, d, p => ([], d, p)
  | count + 1, d, p =>
      match d.next p with
      | (none, d, p) => ([], d, p)
      | (some r, d, p) =>
          match take count d p with
          | (rs, d, p) => (r :: rs, d, p)

/-- Give up the rest: it is taken one by one as well, and nobody looks at it. -/
def finish (d : Drain) (p : Pool) : Table × Pool :=
  match d.take d.table.records.length p with
  | (_, d, p) => (d.table, p)

end Drain

end BlockJournal
