import BlockJournal.Commit
import BlockJournal.Proofs.Table.Mapping
import BlockJournal.Table.Drain

/-!
# Drains

What comes out of a table that is drained, and what is left of it and of its pool.

A drain has a cursor, and no record is behind it: `Drain.Behind`. That makes the
record it takes next the first of `Table.records`, and leaves the others in
their order. A drain of several records is then nothing but `List.take` and
`List.drop`, and one that is given up leaves the table that `Table.emptied`
makes and the pool that `Table.clear` leaves.

None of this needs a table to be a map or its records to be placed. All that is
asked is that the count of the table is right and that the pool has been charged
for it.

## Main definitions

* `Drain.Behind`: No record is behind the cursor.
* `Drain.Taken`: A drain after some of its records were taken.

## Theorems

* `Pool.release_release`: Giving back in two parts.
* `Drain.next_eq_none`, `Drain.next_eq_some`, `Drain.next_eq`: The next record.
* `Drain.take_eq`: The next few records.
* `Drain.finish_eq`, `Drain.finish_taken`: Giving up the rest.
* `Table.drain_finish`: A drain that is given up after any number of records.
* `Mount.drainTable_eq_drain`: What a commit takes out at once could be drained.
-/

namespace BlockJournal

namespace Pool

theorem release_of_le {p : Pool} {count : Nat} (h : count ≤ p.inUse) :
    p.release count = { p with inUse := p.inUse - count } := if_pos h

@[simp] theorem release_zero (p : Pool) : p.release 0 = p := rfl

theorem inUse_release {p : Pool} {count : Nat} (h : count ≤ p.inUse) :
    (p.release count).inUse = p.inUse - count := by
  rw [release_of_le h]

/-- Giving back in two parts is giving back the whole. -/
theorem release_release {p : Pool} {first second : Nat} (h : first + second ≤ p.inUse) :
    (p.release first).release second = p.release (first + second) := by
  have hfirst : first ≤ p.inUse := by omega
  have hsecond : second ≤ (p.release first).inUse := by
    rw [inUse_release hfirst]
    omega
  rw [release_of_le hsecond, release_of_le hfirst, release_of_le h, Nat.sub_sub]

end Pool

namespace Table

theorem chain_eq_nil_of_le {t : Table} {i : Nat} (hi : t.buckets.size ≤ i) : t.chain i = [] := by
  rw [chain, Array.getD_eq_getD_getElem?, Array.getElem?_eq_none hi, Option.getD_none]

theorem records_eq_nil_iff {t : Table} : t.records = [] ↔ ∀ i, t.chain i = [] := by
  simp only [List.eq_nil_iff_forall_not_mem, mem_records, not_exists]
  exact forall_comm

-- Buckets without records have none in any order.
theorem flatMap_take_eq_nil {t : Table} {n : Nat} (h : ∀ i < n, t.chain i = []) :
    (t.buckets.toList.take n).flatMap List.reverse = [] := by
  rw [List.flatMap_eq_nil_iff]
  intro c hc
  rcases List.mem_take_iff_getElem.mp hc with ⟨i, hi, rfl⟩
  have hchain := h i (by omega)
  rw [Array.length_toList] at hi
  rw [chain, Array.getD_eq_getD_getElem?, Array.getElem?_eq_getElem (by omega),
    Option.getD_some] at hchain
  rw [Array.getElem_toList, hchain, List.reverse_nil]

-- A table without records has nothing that an empty one has not.
theorem eq_emptied {t t' : Table} (hbits : t'.bits = t.bits)
    (hsize : t'.buckets.size = t.buckets.size) (hrecords : t'.records = []) (hlen : t'.len = 0) :
    t' = t.emptied := by
  have hbuckets : t'.buckets = t.buckets.map (fun _ => []) := by
    refine Array.ext (by rw [Array.size_map, hsize]) (fun i hi _ => ?_)
    have hchain := records_eq_nil_iff.mp hrecords i
    rw [chain, Array.getD_eq_getD_getElem?, Array.getElem?_eq_getElem hi, Option.getD_some] at hchain
    rw [Array.getElem_map, hchain]
  cases t'
  simp only [emptied, mk.injEq]
  exact ⟨hbits, hbuckets, hlen⟩

end Table

namespace Drain

/-- No record is behind the cursor of a drain. -/
def Behind (d : Drain) : Prop := ∀ i < d.bucket, d.table.chain i = []

/-- A drain after a number of its records were taken. -/
structure Taken (d : Drain) (count : Nat) (d' : Drain) : Prop where
  behind : d'.Behind
  bits_eq : d'.table.bits = d.table.bits
  size_eq : d'.table.buckets.size = d.table.buckets.size
  -- The records that are left are where they were.
  chain_prefix : ∀ i, d'.table.chain i <+: d.table.chain i
  records_eq : d'.table.records = d.table.records.drop count
  len_eq : d'.table.len = d.table.len - count

theorem firstFilled_none {buckets : Array (List Record)} :
    ∀ {count bucket : Nat}, firstFilled buckets count bucket = none →
      ∀ i, bucket ≤ i → i < bucket + count → buckets.getD i [] = []
  | 0, _, _, i, hle, hlt => by omega
  | count + 1, bucket, h, i, hle, hlt => by
      rw [firstFilled] at h
      by_cases hempty : (buckets.getD bucket []).isEmpty = true
      · rw [if_pos hempty] at h
        by_cases hi : i = bucket
        · rw [hi]
          exact List.isEmpty_iff.mp hempty
        · exact firstFilled_none h i (by omega) (by omega)
      · rw [if_neg hempty] at h
        exact absurd h (by simp only [reduceCtorEq, not_false_eq_true])

theorem firstFilled_some {buckets : Array (List Record)} :
    ∀ {count bucket found : Nat}, firstFilled buckets count bucket = some found →
      buckets.getD found [] ≠ [] ∧ ∀ i, bucket ≤ i → i < found → buckets.getD i [] = []
  | 0, _, _, h => absurd h (by simp only [firstFilled, reduceCtorEq, not_false_eq_true])
  | count + 1, bucket, found, h => by
      rw [firstFilled] at h
      by_cases hempty : (buckets.getD bucket []).isEmpty = true
      · rw [if_pos hempty] at h
        rcases firstFilled_some h with ⟨hfilled, hbetween⟩
        refine ⟨hfilled, fun i hle hlt => ?_⟩
        by_cases hi : i = bucket
        · rw [hi]
          exact List.isEmpty_iff.mp hempty
        · exact hbetween i (by omega) hlt
      · rw [if_neg hempty, Option.some.injEq] at h
        rw [← h]
        refine ⟨fun hnil => hempty (List.isEmpty_iff.mpr hnil), fun i hle hlt => ?_⟩
        omega

theorem behind_drain (t : Table) : t.drain.Behind :=
  fun _ hi => absurd hi (Nat.not_lt_zero _)

-- The buckets behind the cursor are empty, and so are those that a search goes over.
theorem Behind.records_eq_nil {t : Table} {bucket : Nat} (hbehind : (⟨t, bucket⟩ : Drain).Behind)
    (hf : firstFilled t.buckets (t.buckets.size - bucket) bucket = none) : t.records = [] := by
  refine Table.records_eq_nil_iff.mpr fun i => ?_
  by_cases hlt : i < bucket
  · exact hbehind i hlt
  · by_cases hsize : i < t.buckets.size
    · exact firstFilled_none hf i (by omega) (by omega)
    · exact Table.chain_eq_nil_of_le (by omega)

-- The bucket that a search finds is the first that has records.
theorem Behind.first_found {t : Table} {bucket found : Nat}
    (hbehind : (⟨t, bucket⟩ : Drain).Behind)
    (hf : firstFilled t.buckets (t.buckets.size - bucket) bucket = some found) :
    t.chain found ≠ [] ∧ ∀ i < found, t.chain i = [] := by
  rcases firstFilled_some hf with ⟨hfilled, hbetween⟩
  refine ⟨hfilled, fun i hi => ?_⟩
  by_cases hlt : i < bucket
  · exact hbehind i hlt
  · exact hbetween i (by omega) hi

theorem Taken.refl {d : Drain} (hbehind : d.Behind) : d.Taken 0 d :=
  ⟨hbehind, rfl, rfl, fun _ => List.prefix_rfl, rfl, rfl⟩

theorem Taken.trans {d d' d'' : Drain} {first second : Nat} (h : d.Taken first d')
    (h' : d'.Taken second d'') : d.Taken (first + second) d'' := by
  refine ⟨h'.behind, h'.bits_eq.trans h.bits_eq, h'.size_eq.trans h.size_eq,
    fun i => (h'.chain_prefix i).trans (h.chain_prefix i), ?_, ?_⟩
  · rw [h'.records_eq, h.records_eq, List.drop_drop]
  · rw [h'.len_eq, h.len_eq, Nat.sub_sub]

-- What is left in a table that is being drained is placed as it was.
theorem Taken.wellFormed {d d' : Drain} {count : Nat} (h : d.Taken count d')
    (hw : d.table.WellFormed) : d'.table.WellFormed := by
  refine ⟨h.bits_eq ▸ hw.bits_le, by rw [h.size_eq, h.bits_eq, hw.size_eq], fun i r hr => ?_, ?_⟩
  · rw [Table.bucketOf, h.bits_eq]
    exact hw.placed i r ((h.chain_prefix i).subset hr)
  · rw [h.len_eq, h.records_eq, List.length_drop, hw.len_eq]

/-- Nothing comes if nothing is left, and nothing is lost by asking. -/
theorem next_eq_none {d : Drain} (hnil : d.table.records = [])
    (hcount : d.table.len = d.table.records.length) (p : Pool) :
    ∃ d', d.next p = (none, d', p) ∧ ∀ count, d.Taken count d' := by
  rcases d with ⟨t, bucket⟩
  have hempty := Table.records_eq_nil_iff.mp hnil
  cases hf : firstFilled t.buckets (t.buckets.size - bucket) bucket with
  | none =>
      refine ⟨⟨t, max bucket t.buckets.size⟩, by simp only [next, hf], fun count => ?_⟩
      refine ⟨fun i _ => hempty i, rfl, rfl, fun _ => List.prefix_rfl, ?_, ?_⟩
      · rw [hnil, List.drop_nil]
      · rw [hcount, hnil, List.length_nil, Nat.zero_sub]
  | some found => exact absurd (hempty found) (firstFilled_some hf).1

/-- The next record is the first there is. -/
theorem next_eq_some {d : Drain} (hbehind : d.Behind) {r : Record} {rest : List Record}
    (hrecords : d.table.records = r :: rest) (p : Pool) :
    ∃ d', d.next p = (some r, d', p.release 1) ∧ d.Taken 1 d' := by
  rcases d with ⟨t, bucket⟩
  cases hf : firstFilled t.buckets (t.buckets.size - bucket) bucket with
  | none =>
      rw [hbehind.records_eq_nil hf] at hrecords
      exact absurd hrecords (by simp only [List.nil_eq, reduceCtorEq, not_false_eq_true])
  | some found =>
      rcases hbehind.first_found hf with ⟨hfilled, hbefore⟩
      have hsize : found < t.buckets.size := by
        by_contra hc
        exact hfilled (Table.chain_eq_nil_of_le (by omega))
      have hnone := Table.flatMap_take_eq_nil hbefore
      rcases Table.records_eq t hsize with ⟨hall, hchanged⟩
      rcases List.eq_nil_or_concat' (t.chain found) with hnil | ⟨front, newest, hchain⟩
      · exact absurd hnil hfilled
      change t.records = r :: rest at hrecords
      -- The newest record of the bucket is the first of all, since none comes before it.
      rw [hnone, List.nil_append, hchain, List.reverse_append, List.reverse_singleton,
        List.singleton_append, List.cons_append, hrecords, List.cons.injEq] at hall
      refine ⟨⟨⟨t.bits, t.buckets.modify found List.dropLast, t.len - 1⟩, found⟩, ?_, ?_⟩
      · have hlast : (t.buckets.getD found []).getLast? = some newest := by
          change (t.chain found).getLast? = some newest
          rw [hchain, List.getLast?_concat]
        simp only [next, hf, hlast, hall.1]
      · refine ⟨fun i hi => ?_, rfl, Array.size_modify, fun i => ?_, ?_, rfl⟩
        · change (t.buckets.modify found List.dropLast).getD i [] = []
          rw [Table.chain_of_modify _ _ _ rfl, if_neg (Nat.ne_of_gt hi)]
          exact hbefore i hi
        · change (t.buckets.modify found List.dropLast).getD i [] <+: t.buckets.getD i []
          rw [Table.chain_of_modify _ _ _ rfl]
          by_cases hi : found = i
          · rw [if_pos hi]
            exact List.dropLast_prefix _
          · simp only [if_neg hi, List.prefix_rfl]
        · rw [hrecords, List.drop_one, List.tail_cons, hall.2]
          refine (hchanged List.dropLast (t.len - 1)).trans ?_
          rw [hnone, List.nil_append, hchain, List.dropLast_concat]

/-- What asking for the next record does: it yields the first of those that are left, if
    there is one, and gives it back to the pool. -/
theorem next_eq {d : Drain} (hbehind : d.Behind) (hcount : d.table.len = d.table.records.length)
    (p : Pool) :
    ∃ d', d.next p = (d.table.records[0]?, d', p.release (min 1 d.table.len)) ∧ d.Taken 1 d' := by
  cases hrecords : d.table.records with
  | nil =>
      rcases next_eq_none hrecords hcount p with ⟨d', hnext, htaken⟩
      rw [hrecords, List.length_nil] at hcount
      refine ⟨d', ?_, htaken 1⟩
      rw [hnext, hcount, Nat.min_zero, Pool.release_zero, List.getElem?_nil]
  | cons r rest =>
      rw [hrecords, List.length_cons] at hcount
      rcases next_eq_some hbehind hrecords p with ⟨d', hnext, htaken⟩
      refine ⟨d', ?_, htaken⟩
      rw [hnext, Nat.min_eq_left (by omega), List.getElem?_cons_zero]

/-- The next few records are the first few there are, each given back to the pool. -/
theorem take_eq : ∀ (count : Nat) {d : Drain} {p : Pool}, d.Behind →
    d.table.len = d.table.records.length → d.table.len ≤ p.inUse →
    ∃ d', d.take count p =
        (d.table.records.take count, d', p.release (min count d.table.len)) ∧ d.Taken count d'
  | 0, d, p, hbehind, _, _ => by
      refine ⟨d, ?_, Taken.refl hbehind⟩
      rw [take, List.take_zero, Nat.zero_min, Pool.release_zero]
  | count + 1, d, p, hbehind, hcount, hpaid => by
      cases hrecords : d.table.records with
      | nil =>
          rcases next_eq_none hrecords hcount p with ⟨d', hnext, htaken⟩
          rw [hrecords, List.length_nil] at hcount
          refine ⟨d', ?_, htaken (count + 1)⟩
          simp only [take, hnext, hcount, Nat.min_zero, Pool.release_zero, List.take_nil]
      | cons r rest =>
          rw [hrecords, List.length_cons] at hcount
          rcases next_eq_some hbehind hrecords p with ⟨d', hnext, htaken⟩
          have hrest : d'.table.records = rest := by
            rw [htaken.records_eq, hrecords, List.drop_one, List.tail_cons]
          have hone : 1 ≤ p.inUse := by omega
          have hlen := htaken.len_eq
          have hpaid' : d'.table.len ≤ (p.release 1).inUse := by
            rw [Pool.inUse_release hone]
            omega
          rcases take_eq count htaken.behind (by rw [hrest]; omega) hpaid' with
            ⟨d'', htake, htaken'⟩
          refine ⟨d'', ?_, Nat.add_comm 1 count ▸ htaken.trans htaken'⟩
          have hparts : 1 + min count d'.table.len = min (count + 1) d.table.len := by omega
          rw [Pool.release_release (by omega), hparts, hrest] at htake
          simp only [take, hnext, htake, List.take_succ_cons]

/-- Giving up the rest of a drain empties the table. -/
theorem finish_eq {d : Drain} {p : Pool} (hbehind : d.Behind)
    (hcount : d.table.len = d.table.records.length) (hpaid : d.table.len ≤ p.inUse) :
    d.finish p = (d.table.emptied, p.release d.table.len) := by
  rcases take_eq d.table.records.length hbehind hcount hpaid with ⟨d', htake, htaken⟩
  have hnil : d'.table.records = [] := by
    rw [htaken.records_eq, List.drop_length]
  have hzero : d'.table.len = 0 := by
    rw [htaken.len_eq, hcount, Nat.sub_self]
  rw [finish, htake]
  simp only [← hcount, Nat.min_self, Table.eq_emptied htaken.bits_eq htaken.size_eq hnil hzero]

/-- Giving up a drain after some of its records leaves an empty table, and the pool has
    everything back that the table held. -/
theorem finish_taken {t : Table} {p : Pool} (hcount : t.len = t.records.length)
    (hpaid : t.len ≤ p.inUse) {count : Nat} {d : Drain} (htaken : t.drain.Taken count d) :
    d.finish (p.release (min count t.len)) = (t.emptied, p.release t.len) := by
  have hlen : d.table.len = t.len - count := htaken.len_eq
  have hleft : d.table.records = t.records.drop count := htaken.records_eq
  have hcount' : d.table.len = d.table.records.length := by
    rw [hleft, List.length_drop, hlen, hcount]
  rw [finish_eq htaken.behind hcount' (by rw [Pool.inUse_release (by omega)]; omega)]
  -- What came out and what was given up add up to what the table held.
  have hparts : min count t.len + d.table.len = t.len := by omega
  rw [Pool.release_release (by omega), hparts]
  have hemptied : d.table.emptied = t.emptied := by
    refine Table.eq_emptied htaken.bits_eq ?_ (Table.records_emptied _) rfl
    simp only [Table.emptied, Array.size_map]
    exact htaken.size_eq
  rw [hemptied]

end Drain

/-- A drain of a table, given up after any number of records: the first ones came out, and
    all of them went back to the pool. -/
theorem Table.drain_finish {t : Table} {p : Pool} (hcount : t.len = t.records.length)
    (hpaid : t.len ≤ p.inUse) (count : Nat) :
    ∃ d' p', t.drain.take count p = (t.records.take count, d', p') ∧
      d'.finish p' = (t.emptied, p.release t.len) := by
  rcases Drain.take_eq count (Drain.behind_drain t) hcount hpaid with ⟨d', htake, htaken⟩
  exact ⟨d', _, htake, Drain.finish_taken hcount hpaid htaken⟩

/-- A commit takes out all records at once, which is what a drain of them all comes to. -/
theorem Mount.drainTable_eq_drain {σ : Type} {m : Mount σ}
    (hcount : m.journal.table.len = m.journal.table.records.length)
    (hpaid : m.journal.table.len ≤ m.pool.inUse) :
    ∃ d p, m.journal.table.drain.take m.journal.table.len m.pool = (m.drainTable.1, d, p) ∧
      d.finish p = (m.drainTable.2.journal.table, m.drainTable.2.pool) := by
  rcases Table.drain_finish hcount hpaid m.journal.table.len with ⟨d, p, htake, hfinish⟩
  rw [hcount, List.take_length, ← hcount] at htake
  exact ⟨d, p, htake, hfinish⟩

end BlockJournal
