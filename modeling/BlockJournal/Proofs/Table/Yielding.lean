import BlockJournal.Proofs.SharedPool

/-!
# What a Drain Yields

Every record of a table comes out of a drain once, however much of the drain is used.

A drain is a cursor over the buckets, and what it yields is a matter of where the
cursor stands and of what is left in the chains. Neither has to be looked at: no record
is behind the cursor, so the records that are left are those still to come, and
`next_eq` says in one equation what asking for the next one does, whether or not there
is one. `ask` repeats that a number of times and does not stop at the end, which is how
a drain shows that nothing comes after nothing.

A table of a shared pool is in order whatever was done to it and to the others before,
so `drain_yields` needs nothing of the table but that it is there.

## Main definitions

* `Drain.ask`: Asking for the next record a number of times.

## Theorems

* `Drain.next_after_none`: A drain that has come to its end stays there.
* `Drain.ask_eq`: What asking yields.
* `Drain.take_eq_ask`: Taking records is asking for them.
* `Sharing.drain_yields`: All of it, for the tables of a shared pool.
-/

namespace BlockJournal

namespace Drain

/-- Ask for the next record a number of times, whether or not there is one. -/
def ask : (count : Nat) → Drain → Pool → List (Option Record) × Drain × Pool
  | 0, d, p => ([], d, p)
  | count + 1, d, p =>
      match d.next p with
      | (r, d, p) =>
          match ask count d p with
          | (rs, d, p) => (r :: rs, d, p)

-- A drain that has come to its end stays there.
theorem next_after_none {d d' : Drain} {p p' : Pool} (h : d.next p = (none, d', p')) :
    p' = p ∧ d'.next p = (none, d', p) := by
  rcases d with ⟨⟨bits, buckets, len⟩, bucket⟩
  cases hf : firstFilled buckets (buckets.size - bucket) bucket with
  | none =>
      simp only [next, hf, Prod.mk.injEq, true_and] at h
      rcases h with ⟨rfl, rfl⟩
      -- The cursor is behind the last bucket, so the next search looks at none.
      have hnone : buckets.size - max bucket buckets.size = 0 := by omega
      have hstays : max (max bucket buckets.size) buckets.size = max bucket buckets.size := by
        omega
      refine ⟨rfl, ?_⟩
      simp only [next, hnone, firstFilled, hstays]
  | some found =>
      simp only [next, hf, Prod.mk.injEq, List.getLast?_eq_none_iff] at h
      exact absurd h.1 (firstFilled_some hf).1

theorem ask_after_none {d : Drain} {p : Pool} (h : d.next p = (none, d, p)) (count : Nat) :
    d.ask count p = (List.replicate count none, d, p) := by
  induction count with
  | zero => rfl
  | succ count ih => simp only [ask, h, ih, List.replicate_succ]

/-- Taking records leaves what asking for them does, also where there are fewer. -/
theorem take_eq_ask (count : Nat) (d : Drain) (p : Pool) :
    (d.take count p).2 = (d.ask count p).2 := by
  induction count generalizing d p with
  | zero => rfl
  | succ count ih =>
      rcases hnext : d.next p with ⟨_ | r, d', p'⟩
      · -- Taking stops here, and asking goes on in vain.
        rcases next_after_none hnext with ⟨rfl, hagain⟩
        simp only [take, ask, hnext, ask_after_none hagain]
      · simp only [take, ask, hnext]
        exact ih d' p'

/-- What asking a number of times does: the records that are left come one after the other,
    and nothing comes after the last. -/
theorem ask_eq (count : Nat) {d : Drain} {p : Pool} (hbehind : d.Behind)
    (hcount : d.table.len = d.table.records.length) (hpaid : d.table.len ≤ p.inUse) :
    ∃ d', d.ask count p = ((List.range count).map (d.table.records[·]?), d',
      p.release (min count d.table.len)) ∧ d.Taken count d' := by
  induction count generalizing d p with
  | zero =>
      refine ⟨d, ?_, Taken.refl hbehind⟩
      rw [ask, List.range_zero, List.map_nil, Nat.zero_min, Pool.release_zero]
  | succ count ih =>
      rcases next_eq hbehind hcount p with ⟨d', hnext, htaken⟩
      have hlen := htaken.len_eq
      have hone : min 1 d.table.len ≤ p.inUse := by omega
      have hcount' : d'.table.len = d'.table.records.length := by
        rw [htaken.records_eq, List.length_drop, hlen, hcount]
      have hpaid' : d'.table.len ≤ (p.release (min 1 d.table.len)).inUse := by
        rw [Pool.inUse_release hone]
        omega
      rcases ih htaken.behind hcount' hpaid' with ⟨d'', hask, htaken'⟩
      refine ⟨d'', ?_, Nat.add_comm 1 count ▸ htaken.trans htaken'⟩
      have hparts : min 1 d.table.len + min count d'.table.len = min (count + 1) d.table.len := by
        omega
      rw [Pool.release_release (by omega), hparts] at hask
      simp only [ask, hnext, hask, htaken.records_eq, List.range_succ_eq_map, List.map_cons,
        List.map_map, Function.comp_def, List.getElem?_drop, Nat.succ_eq_one_add]

end Drain

namespace Sharing

/-- What comes out of a drain of a table, whatever was done before to the table and to those
    who share its pool.

    The records come bucket by bucket and the newest of each bucket first, and nothing comes
    after the last one. After each the drain tells how many are still to come, and the pool
    has as many less in use as came out. A drain that is given up at this point leaves an
    empty table, and the pool has in use what the others hold. -/
theorem drain_yields (build : Build) (limit : Option Nat) (uses : List PoolUse) {i : Nat}
    {t : Table} (hi : ((start build limit).run uses).sharers[i]? = some (.table t))
    (count : Nat) :
    let s := (start build limit).run uses
    let inOrder := t.buckets.toList.flatMap List.reverse
    ∃ d p, t.drain.take count s.pool = (inOrder.take count, d, p) ∧
      t.drain.ask count s.pool = ((List.range count).map (inOrder[·]?), d, p) ∧
      d.len = (inOrder.drop count).length ∧
      p.inUse + min count inOrder.length = s.pool.inUse ∧
      ∃ t' p', d.finish p = (t', p') ∧
        t'.len = 0 ∧ t'.bucketLengths = List.replicate t.hashSize 0 ∧
        p'.inUse + inOrder.length = s.pool.inUse ∧
        p'.inUse = ((s.sharers.eraseIdx i).map fun x => x.held.len).sum := by
  intro s inOrder
  change s.sharers[i]? = some (.table t) at hi
  have hs : s.Balanced := (run_balanced (balanced_start build limit) uses).1
  have hcount : t.len = inOrder.length := (hs.sound _ (List.mem_of_getElem? hi)).1.len_eq
  have hpaid : t.len ≤ s.pool.inUse := hs.len_le hi
  rcases Drain.take_eq count (Drain.behind_drain t) hcount hpaid with ⟨d, htake, htaken⟩
  rcases Drain.ask_eq count (Drain.behind_drain t) hcount hpaid with ⟨d', hask, _⟩
  have hsame := Drain.take_eq_ask count t.drain s.pool
  rw [htake, hask, Prod.mk.injEq] at hsame
  rw [← hsame.1] at hask
  have hlen : d.table.len = t.len - count := htaken.len_eq
  have hused : (s.pool.release (min count t.len)).inUse = s.pool.inUse - min count t.len :=
    Pool.inUse_release (by omega)
  have hheld : s.holding = t.len + ((s.sharers.eraseIdx i).map fun x => x.held.len).sum := by
    have hsplit := holding_split hi
    rw [List.eraseIdx_eq_take_drop_succ, List.map_append, List.sum_append]
    rw [hsplit, Sharer.held]
    omega
  have hall := hs.inUse_eq
  refine ⟨d, _, htake, hask, ?_, ?_, t.emptied, _, Drain.finish_taken hcount hpaid htaken, rfl, ?_,
    ?_, ?_⟩
  · rw [List.length_drop, ← hcount]
    exact hlen
  · change (s.pool.release (min count t.len)).inUse + _ = _
    rw [hused, ← hcount]
    omega
  · simp only [Table.bucketLengths, Table.emptied, Array.toList_map, List.map_const',
      List.map_replicate, List.length_nil, Array.length_toList, Table.hashSize]
  · rw [Pool.inUse_release hpaid, ← hcount]
    omega
  · rw [Pool.inUse_release hpaid]
    omega

/-- A table with two records of one block is given up with one record to come: the table is
    empty, and the one record in use is that of the other table. -/
theorem drain_yields_twoRecords :
    let s := (start .debug (some 8)).run
      [.newTable 2, .newTable 1, .table 1 (.insert ⟨9⟩ ⟨1⟩), .table 0 (.insert ⟨1⟩ ⟨1⟩),
        .table 0 (.insert ⟨2⟩ ⟨1⟩), .table 0 (.insert ⟨1⟩ ⟨2⟩)]
    ∃ t d p, s.sharers[0]? = some (.table t) ∧
      t.drain.take 2 s.pool = ([⟨⟨2⟩, ⟨1⟩⟩, ⟨⟨1⟩, ⟨2⟩⟩], d, p) ∧ d.len = 1 ∧ p.inUse = 2 ∧
      ∃ t' p', d.finish p = (t', p') ∧ t'.len = 0 ∧ p'.inUse = 1 := by
  intro s
  let t : Table := ⟨1, #[[⟨⟨2⟩, ⟨1⟩⟩], [⟨⟨1⟩, ⟨1⟩⟩, ⟨⟨1⟩, ⟨2⟩⟩]], 3⟩
  have hi : s.sharers[0]? = some (.table t) := by rfl
  have hpool : s.pool.inUse = 4 := by rfl
  rcases drain_yields .debug (some 8) _ hi 2 with
    ⟨d, p, htake, _, hlen, hp, t', p', hfinish, hempty, _, hp', _⟩
  refine ⟨t, d, p, hi, htake, hlen, ?_, t', p', hfinish, hempty, ?_⟩
  · change p.inUse + 2 = s.pool.inUse at hp
    omega
  · change p'.inUse + 3 = s.pool.inUse at hp'
    omega

end Sharing

end BlockJournal
