import BlockJournal.Proofs.Table.Draining
import BlockJournal.Proofs.Table.Recording
import Mathlib.Data.Finmap

/-!
# Tables of Any Size

A revoke table does the same whatever its number of buckets.

The callers of a table look before they insert, remove what a search found, and
change the record a search found. `MapOp` is what they do, `Keeping` a table
with a pool that pays for nothing else, and `Bounded` what is left when the
buckets are forgotten: a finite map that admits a limited number of blocks. A
table `Represents` a map if it is a map in the sense of `Table.IsMap` and finds
for each block what the map has for it. The number of records, and with it
whether the pool pays for another one, follows from the lookups: different
blocks, as many as the map has.

An operation on both sides gives the same answer and keeps the representation.
Two tables with different numbers of buckets then represent the same map after
the same operations, and what can differ between them is the order of their
records alone.

## Main definitions

* `MapOp`: What is done to a table.
* `Keeping`, `Keeping.apply`, `Keeping.run`: A table with a pool of its own.
* `Bounded`, `Bounded.apply`, `Bounded.run`: A finite map of limited size.
* `Keeping.Represents`: The table finds what the map has.
* `Table.Agrees`: What can be seen of a table, in terms of a map.

## Theorems

* `create_eq_ok_iff`: When a table can be created.
* `Keeping.Represents.apply`, `Keeping.Represents.run`: An operation, and a run.
* `Keeping.run_agrees`: Two tables after the same operations.
-/

namespace BlockJournal

/-- What is done to a table. -/
inductive MapOp where
  /-- Insert a record of a block that has none. -/
  | add (block : BlockNumber) (sequence : Tid)
  /-- Remove the record of a block. -/
  | remove (block : BlockNumber)
  /-- Change the transaction of the record of a block. -/
  | change (block : BlockNumber) (sequence : Tid)
  /-- Free every record. -/
  | clear
  /-- Take out a number of records and give up the rest. -/
  | drain (count : Nat)
  deriving DecidableEq

/-- A table with a pool that pays for nothing else. -/
structure Keeping where
  table : Table
  pool : Pool

namespace Keeping

/-- One operation. The answer is the transaction that the block had, or why it could not be
    inserted. -/
def apply (k : Keeping) : MapOp → Except Error (Option Tid) × Keeping
  | .add block sequence =>
      match k.table.find block with
      | some h => (.ok ((k.table.get? h).map Record.sequence), k)
      | none =>
          match k.table.insert k.pool block sequence with
          | (.error e, t, p) => (.error e, ⟨t, p⟩)
          | (.ok _, t, p) => (.ok none, ⟨t, p⟩)
  | .remove block =>
      match k.table.find block with
      | none => (.ok none, k)
      | some h =>
          match k.table.remove k.pool h with
          | (r, t, p) => (.ok (r.map Record.sequence), ⟨t, p⟩)
  | .change block sequence =>
      match k.table.find block with
      | none => (.ok none, k)
      | some h => (.ok ((k.table.get? h).map Record.sequence), ⟨k.table.set h sequence, k.pool⟩)
  | .clear =>
      match k.table.clear k.pool with
      | (t, p) => (.ok none, ⟨t, p⟩)
  | .drain count =>
      match k.table.drain.take count k.pool with
      | (_, d, p) =>
          match d.finish p with
          | (t, p) => (.ok none, ⟨t, p⟩)

/-- Several operations, one after the other, with their answers. -/
def run (k : Keeping) : List MapOp → List (Except Error (Option Tid)) × Keeping
  | [] => ([], k)
  | op :: ops =>
      match k.apply op with
      | (answer, k) =>
          match k.run ops with
          | (answers, k) => (answer :: answers, k)

end Keeping

/-- A finite map from blocks to transactions that admits a limited number of blocks. -/
structure Bounded where
  map : Finmap fun _ : BlockNumber => Tid
  capacity : Nat

namespace Bounded

/-- One operation on a map. -/
def apply (m : Bounded) : MapOp → Except Error (Option Tid) × Bounded
  | .add block sequence =>
      match m.map.lookup block with
      | some old => (.ok (some old), m)
      | none =>
          if m.map.keys.card < m.capacity then
            (.ok none, { m with map := m.map.insert block sequence })
          else (.error (.poolExhausted m.map.keys.card), m)
  | .remove block => (.ok (m.map.lookup block), { m with map := m.map.erase block })
  | .change block sequence =>
      match m.map.lookup block with
      | some old => (.ok (some old), { m with map := m.map.insert block sequence })
      | none => (.ok none, m)
  | .clear | .drain _ => (.ok none, { m with map := ∅ })

/-- Several operations, one after the other, with their answers. -/
def run (m : Bounded) : List MapOp → List (Except Error (Option Tid)) × Bounded
  | [] => ([], m)
  | op :: ops =>
      match m.apply op with
      | (answer, m) =>
          match m.run ops with
          | (answers, m) => (answer :: answers, m)

end Bounded

namespace Table

/-- A table can be created with a power of two of buckets that fit into half of the address
    space. -/
theorem create_eq_ok_iff {hashSize : Nat} :
    (∃ t, create hashSize = .ok t) ↔
      isPowerOfTwo hashSize = true ∧ hashSize * bucketBytes < addressSpace / 2 := by
  unfold create checkHashSize
  by_cases hp : isPowerOfTwo hashSize = true
  · by_cases hs : hashSize * bucketBytes < addressSpace / 2
    · simp only [if_pos hp, if_pos hs, Except.ok.injEq, exists_eq', true_iff]
      exact ⟨hp, hs⟩
    · simp only [if_pos hp, if_neg hs, reduceCtorEq, exists_false, false_iff, not_and]
      exact fun _ => hs
  · simp only [if_neg hp, reduceCtorEq, exists_false, false_iff, not_and]
    exact fun hp' => absurd hp' hp

theorem bits_create {hashSize : Nat} {t : Table} (hc : create hashSize = .ok t) :
    t.bits = hashSize.log2 ∧ t.hashSize = hashSize := by
  rcases create_eq_ok_iff.mp ⟨t, hc⟩ with ⟨hp, hs⟩
  simp only [create, checkHashSize, if_pos hp, if_pos hs, Except.ok.injEq] at hc
  rw [← hc]
  exact ⟨rfl, Array.size_replicate⟩

/-- What can be seen of a table with a number of buckets, in terms of a map. -/
structure Agrees (t : Table) (hashSize : Nat) (map : Finmap fun _ : BlockNumber => Tid) : Prop where
  hashSize_eq : t.hashSize = hashSize
  -- Every record is in the bucket of its block, and there is such a bucket.
  placed : ∀ i, ∀ r ∈ t.chain i, bucketIndex r.block hashSize.log2 = i ∧ i < hashSize
  -- No block has two records.
  unique : (t.records.map Record.block).Nodup
  lookup_eq : ∀ b, t.lookup b = (map.lookup b).map (Record.mk b)
  find_iff : ∀ b, (t.find b).isSome = true ↔ b ∈ map
  len_eq : t.len = map.keys.card
  isEmpty_iff : t.isEmpty = true ↔ map = ∅

-- Two tables with the same lookups have the same records.
theorem IsMap.records_perm {t t' : Table} (hm : t.IsMap) (hm' : t'.IsMap)
    (hlookup : ∀ b, t.lookup b = t'.lookup b) : t.records.Perm t'.records := by
  refine (List.perm_ext_iff_of_nodup hm.unique.of_map hm'.unique.of_map).mpr fun r => ?_
  have hsame : t.lookup r.block = some r ↔ t'.lookup r.block = some r := by rw [hlookup]
  rw [lookup_eq_some_iff hm, lookup_eq_some_iff hm'] at hsame
  simpa only [and_true] using hsame

end Table

namespace Keeping

/-- A table finds what a map has, and its pool pays for its records and nothing else. -/
structure Represents (k : Keeping) (bits : Nat) (m : Bounded) : Prop where
  isMap : k.table.IsMap
  bits_eq : k.table.bits = bits
  lookup_eq : ∀ b, (k.table.lookup b).map Record.sequence = m.map.lookup b
  paid : k.pool.inUse = k.table.len
  capacity_eq : k.pool.capacity = m.capacity

variable {k : Keeping} {bits : Nat} {m : Bounded}

-- The blocks of the map are those that have a record.
theorem Represents.mem_iff (h : k.Represents bits m) (b : BlockNumber) :
    b ∈ m.map ↔ k.table.Holds b := by
  rw [← Finmap.lookup_isSome, ← h.lookup_eq, Option.isSome_map, Table.Holds]

/-- The map has as many blocks as the table has records. -/
theorem Represents.card_eq (h : k.Represents bits m) : m.map.keys.card = k.table.len := by
  have hkeys : m.map.keys = (k.table.records.map Record.block).toFinset := by
    ext b
    rw [Finmap.mem_keys, h.mem_iff, List.mem_toFinset, Table.holds_iff_mem h.isMap]
  rw [hkeys, List.toFinset_card_of_nodup h.isMap.unique, List.length_map, h.isMap.len_eq]

theorem Represents.lookup_mk (h : k.Represents bits m) (b : BlockNumber) :
    k.table.lookup b = (m.map.lookup b).map (Record.mk b) := by
  rw [← h.lookup_eq]
  cases hl : k.table.lookup b with
  | none => rfl
  | some r =>
      -- What is found for a block is a record of that block.
      rw [← ((Table.lookup_eq_some_iff h.isMap).mp hl).2]
      rfl

-- A search finds the record that the map stands for, or nothing where the map has nothing.
theorem Represents.find_cases (h : k.Represents bits m) (b : BlockNumber) :
    (k.table.find b = none ∧ k.table.lookup b = none ∧ m.map.lookup b = none) ∨
    (∃ at_ r, k.table.find b = some at_ ∧ k.table.get? at_ = some r ∧ r.block = b ∧
      m.map.lookup b = some r.sequence) := by
  have hlookup := h.lookup_eq b
  cases hf : k.table.find b with
  | none =>
      have hnone : k.table.lookup b = none := by rw [Table.lookup, hf]
      exact Or.inl ⟨rfl, hnone, by rw [← hlookup, hnone]; rfl⟩
  | some at_ =>
      rcases Table.get?_of_find hf with ⟨_, r, hg, hb⟩
      refine Or.inr ⟨at_, r, rfl, hg, hb, ?_⟩
      rw [← hlookup, Table.lookup, hf]
      simp only [hg, Option.map_some]

theorem Represents.empty (h : k.Represents bits m) {p : Pool}
    (hp : p = k.pool.release k.table.len) :
    Represents ⟨k.table.emptied, p⟩ bits { m with map := ∅ } := by
  have hpaid : k.table.len ≤ k.pool.inUse := Nat.le_of_eq h.paid.symm
  refine ⟨Table.isMap_emptied h.isMap.toWellFormed, h.bits_eq, fun b => ?_, ?_, ?_⟩
  · rw [Table.lookup_emptied, Finmap.lookup_empty]
    rfl
  · rw [hp, Pool.inUse_release hpaid, h.paid, Nat.sub_self]
    rfl
  · rw [hp, Pool.release_of_le hpaid]
    exact h.capacity_eq

-- A record that is added is new to both or to neither, and if it is, both have room or neither.
theorem Represents.add (h : k.Represents bits m) (block : BlockNumber) (sequence : Tid) :
    (k.apply (.add block sequence)).1 = (m.apply (.add block sequence)).1 ∧
      (k.apply (.add block sequence)).2.Represents bits (m.apply (.add block sequence)).2 := by
  rcases h.find_cases block with ⟨hf, hnone, hmap⟩ | ⟨at_, r, hf, hg, hb, hmap⟩
  · simp only [Keeping.apply, Bounded.apply, hf, hmap, Table.insert_eq, h.card_eq, ← h.paid,
      ← h.capacity_eq]
    -- The pool pays exactly if the map has room.
    by_cases hroom : k.pool.inUse < k.pool.capacity
    · simp only [Pool.charge, if_pos hroom, true_and]
      refine ⟨Table.isMap_pushed h.isMap sequence hnone, h.bits_eq, fun b => ?_, ?_, rfl⟩
      · rw [Table.lookup_pushed h.isMap sequence hnone]
        by_cases hb : b = block
        · rw [if_pos hb, hb, Finmap.lookup_insert]
          rfl
        · rw [if_neg hb, Finmap.lookup_insert_of_ne _ hb, h.lookup_eq]
      · exact congrArg (· + 1) h.paid
    · simp only [Pool.charge, if_neg hroom, true_and]
      exact ⟨h.isMap, h.bits_eq, h.lookup_eq, h.paid, h.capacity_eq⟩
  · simp only [Keeping.apply, Bounded.apply, hf, hg, hmap, Option.map_some, true_and]
    exact h

-- A record that is removed was in both or in neither, and the pool gets it back.
theorem Represents.remove (h : k.Represents bits m) (block : BlockNumber) :
    (k.apply (.remove block)).1 = (m.apply (.remove block)).1 ∧
      (k.apply (.remove block)).2.Represents bits (m.apply (.remove block)).2 := by
  rcases h.find_cases block with ⟨hf, hnone, hmap⟩ | ⟨at_, r, hf, hg, hb, hmap⟩
  · simp only [Keeping.apply, Bounded.apply, hf, hmap, true_and]
    have herase : m.map.erase block = m.map := by
      refine Finmap.ext_lookup fun b => ?_
      by_cases hb : b = block
      · rw [hb, Finmap.lookup_erase, hmap]
      · rw [Finmap.lookup_erase_ne hb]
    rw [herase]
    exact h
  · simp only [Keeping.apply, Bounded.apply, hf, Table.remove_eq k.pool hg, hmap,
      Option.map_some, true_and]
    have hlen := (Table.records_removed hg).length_eq
    rw [List.length_cons, ← h.isMap.len_eq,
      ← (Table.isMap_removed h.isMap hg).len_eq] at hlen
    have hone : 1 ≤ k.pool.inUse := by
      rw [h.paid]
      omega
    refine ⟨Table.isMap_removed h.isMap hg, h.bits_eq, fun b => ?_, ?_, ?_⟩
    · rw [Table.lookup_removed h.isMap hg, hb]
      by_cases hb' : b = block
      · rw [if_pos hb', hb', Finmap.lookup_erase]
        rfl
      · rw [if_neg hb', Finmap.lookup_erase_ne hb', h.lookup_eq]
    · rw [Pool.inUse_release hone, h.paid]
      rfl
    · rw [Pool.release_of_le hone]
      exact h.capacity_eq

-- A record that is changed takes no more room than before.
theorem Represents.change (h : k.Represents bits m) (block : BlockNumber) (sequence : Tid) :
    (k.apply (.change block sequence)).1 = (m.apply (.change block sequence)).1 ∧
      (k.apply (.change block sequence)).2.Represents bits (m.apply (.change block sequence)).2 := by
  rcases h.find_cases block with ⟨hf, hnone, hmap⟩ | ⟨at_, r, hf, hg, hb, hmap⟩
  · simp only [Keeping.apply, Bounded.apply, hf, hmap, true_and]
    exact h
  · simp only [Keeping.apply, Bounded.apply, hf, hg, hmap, Option.map_some, true_and]
    refine ⟨Table.isMap_set h.isMap hg sequence, h.bits_eq, fun b => ?_, h.paid,
      h.capacity_eq⟩
    rw [Table.lookup_set h.isMap hg, hb]
    by_cases hb' : b = block
    · rw [if_pos hb', hb', Finmap.lookup_insert]
      rfl
    · rw [if_neg hb', Finmap.lookup_insert_of_ne _ hb', h.lookup_eq]

/-- A table and the map it represents give the same answer to an operation, and the table
    represents the map afterwards. -/
theorem Represents.apply (h : k.Represents bits m) (op : MapOp) :
    (k.apply op).1 = (m.apply op).1 ∧ (k.apply op).2.Represents bits (m.apply op).2 := by
  cases op with
  | add block sequence => exact h.add block sequence
  | remove block => exact h.remove block
  | change block sequence => exact h.change block sequence
  | clear => exact ⟨rfl, h.empty rfl⟩
  | drain count =>
      have hpaid : k.table.len ≤ k.pool.inUse := Nat.le_of_eq h.paid.symm
      rcases Table.drain_finish h.isMap.len_eq hpaid count with ⟨d', p', htake, hfinish⟩
      simp only [Keeping.apply, Bounded.apply, htake, hfinish, true_and]
      exact h.empty rfl

/-- The same for several operations. -/
theorem Represents.run (h : k.Represents bits m) (ops : List MapOp) :
    (k.run ops).1 = (m.run ops).1 ∧ (k.run ops).2.Represents bits (m.run ops).2 := by
  induction ops generalizing k m with
  | nil => exact ⟨rfl, h⟩
  | cons op ops ih =>
      rcases h.apply op with ⟨hanswer, hk⟩
      rcases ih hk with ⟨hanswers, hrun⟩
      refine ⟨?_, hrun⟩
      change (k.apply op).1 :: ((k.apply op).2.run ops).1 =
        (m.apply op).1 :: ((m.apply op).2.run ops).1
      rw [hanswer, hanswers]

-- What a table with a number of buckets shows is what the map has.
theorem Represents.agrees {hashSize : Nat} (h : k.Represents hashSize.log2 m)
    (hsize : 2 ^ hashSize.log2 = hashSize) : k.table.Agrees hashSize m.map := by
  have hbuckets : k.table.buckets.size = hashSize := by
    rw [h.isMap.size_eq, h.bits_eq, hsize]
  refine ⟨hbuckets, fun i r hr => ?_, h.isMap.unique, h.lookup_mk, fun b => ?_, h.card_eq.symm, ?_⟩
  · have hplaced := h.isMap.placed i r hr
    have hlt := Table.bucketOf_lt h.isMap.toWellFormed r.block
    rw [Table.bucketOf, h.bits_eq] at hplaced
    rw [Table.bucketOf, h.bits_eq, hplaced, hbuckets] at hlt
    exact ⟨hplaced, hlt⟩
  · rw [h.mem_iff, ← not_iff_not, Bool.not_eq_true, Option.isSome_eq_false_iff,
      Option.isNone_iff_eq_none, Table.find_eq_none_iff_not_holds h.isMap.toWellFormed]
  · rw [Table.isEmpty, beq_iff_eq, ← h.card_eq, Finset.card_eq_zero]
    constructor
    · intro hkeys
      refine Finmap.ext_lookup fun b => ?_
      rw [Finmap.lookup_empty, Finmap.lookup_eq_none, ← Finmap.mem_keys, hkeys]
      exact Finset.notMem_empty b
    · rintro hmap
      rw [hmap, Finmap.keys_empty]

-- A table that was just created represents the empty map.
theorem represents_create {hashSize : Nat} {t : Table} (hc : Table.create hashSize = .ok t)
    (limit : Option Nat) :
    Represents ⟨t, Pool.new limit⟩ hashSize.log2 ⟨∅, limit.getD (UInt64.size - 1)⟩ := by
  rcases Table.isMap_create hc with ⟨hm, hnil⟩
  refine ⟨hm, (Table.bits_create hc).1, fun b => ?_, ?_, rfl⟩
  · have hnone : t.lookup b = none := by
      rw [Table.lookup_eq_none_iff hm.toWellFormed, hnil]
      exact fun r hr => absurd hr List.not_mem_nil
    rw [hnone, Finmap.lookup_empty]
    rfl
  · rw [hm.len_eq, hnil]
    rfl

/-- Two tables of any sizes, each with a pool of its own of the same limit, do what one finite
    map does: after the same operations they have given its answers and show what it has, and
    they are drained of the same records. -/
theorem run_agrees {hashSize hashSize' : Nat} (hpow : isPowerOfTwo hashSize = true)
    (hroom : hashSize * Table.bucketBytes < addressSpace / 2)
    (hpow' : isPowerOfTwo hashSize' = true)
    (hroom' : hashSize' * Table.bucketBytes < addressSpace / 2) (limit : Option Nat)
    (ops : List MapOp) :
    ∃ t t', Table.create hashSize = .ok t ∧ Table.create hashSize' = .ok t' ∧
      let k := run ⟨t, Pool.new limit⟩ ops
      let k' := run ⟨t', Pool.new limit⟩ ops
      let m := Bounded.run ⟨∅, limit.getD (UInt64.size - 1)⟩ ops
      k.2.table.Agrees hashSize m.2.map ∧ k.1 = m.1 ∧
      k'.2.table.Agrees hashSize' m.2.map ∧ k'.1 = m.1 ∧
      (∀ b, k.2.table.lookup b = k'.2.table.lookup b) ∧ k.2.table.len = k'.2.table.len ∧
      (k.2.table.drain.take k.2.table.len k.2.pool).1.Perm
        (k'.2.table.drain.take k'.2.table.len k'.2.pool).1 := by
  rcases Table.create_eq_ok_iff.mpr ⟨hpow, hroom⟩ with ⟨t, hc⟩
  rcases Table.create_eq_ok_iff.mpr ⟨hpow', hroom'⟩ with ⟨t', hc'⟩
  refine ⟨t, t', hc, hc', ?_⟩
  intro k k' m
  rcases (represents_create hc limit).run ops with ⟨hanswers, hk⟩
  rcases (represents_create hc' limit).run ops with ⟨hanswers', hk'⟩
  have hagrees := hk.agrees (beq_iff_eq.mp hpow)
  have hagrees' := hk'.agrees (beq_iff_eq.mp hpow')
  have hlookup : ∀ b, k.2.table.lookup b = k'.2.table.lookup b :=
    fun b => (hagrees.lookup_eq b).trans (hagrees'.lookup_eq b).symm
  refine ⟨hagrees, hanswers, hagrees', hanswers', hlookup,
    hagrees.len_eq.trans hagrees'.len_eq.symm, ?_⟩
  -- A drain that is not given up yields all records.
  have hall : ∀ {k : Keeping} {n : Nat}, k.Represents n m.2 →
      (k.table.drain.take k.table.len k.pool).1 = k.table.records := by
    intro k n hk
    rcases Table.drain_finish hk.isMap.len_eq (Nat.le_of_eq hk.paid.symm) k.table.len with
      ⟨_, _, htake, _⟩
    rw [htake, hk.isMap.len_eq, List.take_length]
  rw [hall hk, hall hk']
  exact hk.isMap.records_perm hk'.isMap hlookup

/-- Three blocks are put into tables of one and of two buckets that have room for two: the
    third is refused, and the two tables go on to agree. -/
theorem run_agrees_oneBucket :
    let ops : List MapOp :=
      [.add ⟨1⟩ ⟨7⟩, .add ⟨2⟩ ⟨7⟩, .add ⟨3⟩ ⟨7⟩, .change ⟨2⟩ ⟨9⟩, .remove ⟨1⟩]
    let answers : List (Except Error (Option Tid)) :=
      [.ok none, .ok none, .error (.poolExhausted 2), .ok (some ⟨7⟩), .ok (some ⟨7⟩)]
    ∃ t t', Table.create 1 = .ok t ∧ Table.create 2 = .ok t' ∧
      (run ⟨t, Pool.new (some 2)⟩ ops).1 = answers ∧
      (run ⟨t', Pool.new (some 2)⟩ ops).1 = answers ∧
      (run ⟨t, Pool.new (some 2)⟩ ops).2.table.lookup ⟨2⟩ =
        (run ⟨t', Pool.new (some 2)⟩ ops).2.table.lookup ⟨2⟩ := by
  intro ops answers
  have hanswers : (Bounded.run ⟨∅, 2⟩ ops).1 = answers := by rfl
  rcases @run_agrees 1 2 (by decide) (by decide) (by decide) (by decide) (some 2) ops with
    ⟨t, t', hc, hc', _, hfirst, _, hsecond, hlookup, _⟩
  exact ⟨t, t', hc, hc', hfirst.trans hanswers, hsecond.trans hanswers, hlookup ⟨2⟩⟩

end Keeping

end BlockJournal
