import BlockJournal.Proofs.Table.Mapping
import BlockJournal.Revocation

/-!
# Recording a Block

What putting a record of a block into a table and taking it out again does to
the table as a map.

`Table.record` looks before it inserts, so a table that is a map stays one, and
afterwards the block has a record with the later of the two transactions. The
pool keeps up: it has one more record in use exactly if the table has. Nothing
happens to the table if the pool refuses.

## Main definitions

* `Table.Holds`: The test that a block has a record.
* `Table.merged`: The transaction a record gets when its block is revoked.
* `Table.Recorded`: A table and its pool with a block put into the table.
* `Table.Erased`: A table and its pool with a block taken out of the table.

## Theorems

* `charge_ok`, `charge_error`: What charging a pool does.
* `IsMap.len_congr`, `IsMap.len_insert`: How many records there are follows from the blocks.
* `record_cases`: Recording succeeds, or the pool refuses.
* `remove_of_holds`: Taking out the record that a search finds.
* `Recorded.len_eq`, `Erased.len_eq`: How many records there are afterwards.
-/

namespace BlockJournal

theorem Pool.charge_ok {p p' : Pool} (h : p.charge = (.ok (), p')) :
    p'.inUse = p.inUse + 1 ∧ p'.limit = p.limit ∧ p.inUse < p.capacity := by
  unfold charge at h
  by_cases hc : p.inUse < p.capacity
  · rw [if_pos hc] at h
    injection h with _ h
    rw [← h]
    exact ⟨rfl, rfl, hc⟩
  · rw [if_neg hc] at h
    exact absurd h (by simp only [Prod.mk.injEq, reduceCtorEq, false_and, not_false_eq_true])

theorem Pool.charge_error {p p' : Pool} {e : Error} (h : p.charge = (.error e, p')) :
    p'.inUse = p.inUse ∧ p'.limit = p.limit := by
  unfold charge at h
  by_cases hc : p.inUse < p.capacity
  · rw [if_pos hc] at h
    exact absurd h (by simp only [Prod.mk.injEq, reduceCtorEq, false_and, not_false_eq_true])
  · rw [if_neg hc] at h
    injection h with _ h
    rw [← h]
    exact ⟨rfl, rfl⟩

namespace Table

/-- A block has a record. -/
def Holds (t : Table) (b : BlockNumber) : Prop := (t.lookup b).isSome = true

instance (t : Table) (b : BlockNumber) : Decidable (t.Holds b) :=
  inferInstanceAs (Decidable ((t.lookup b).isSome = true))

theorem holds_iff_ne_none {t : Table} {b : BlockNumber} : t.Holds b ↔ t.lookup b ≠ none :=
  Option.isSome_iff_ne_none

-- A block has a record exactly if it is among the blocks of the records.
theorem holds_iff_mem {t : Table} (hm : t.IsMap) {b : BlockNumber} :
    t.Holds b ↔ b ∈ t.records.map Record.block := by
  rw [holds_iff_ne_none, Ne, lookup_eq_none_iff hm.toWellFormed, List.mem_map]
  simp only [ne_eq, not_forall, not_not, exists_prop]

theorem not_holds_emptied (t : Table) (b : BlockNumber) : ¬ t.emptied.Holds b := by
  rw [holds_iff_ne_none, lookup_emptied]
  exact fun h => h rfl

-- A search finds nothing exactly if the block has no record.
theorem find_eq_none_iff_not_holds {t : Table} (hw : t.WellFormed) {b : BlockNumber} :
    t.find b = none ↔ ¬ t.Holds b := by
  rw [find_eq_none_iff hw, ← lookup_eq_none_iff hw, holds_iff_ne_none, not_not]

-- Tables with records of the same blocks have as many of them.
theorem IsMap.len_congr {t t' : Table} (hm : t.IsMap) (hm' : t'.IsMap)
    (hsame : ∀ b, t'.Holds b ↔ t.Holds b) : t'.len = t.len := by
  have hperm : (t'.records.map Record.block).Perm (t.records.map Record.block) := by
    refine (List.perm_ext_iff_of_nodup hm'.unique hm.unique).mpr fun b => ?_
    rw [← holds_iff_mem hm, ← holds_iff_mem hm']
    exact hsame b
  have hlength := hperm.length_eq
  rw [List.length_map, List.length_map] at hlength
  rw [hm'.len_eq, hm.len_eq, hlength]

-- A table with records of one more block has one more.
theorem IsMap.len_insert {t t' : Table} (hm : t.IsMap) (hm' : t'.IsMap) {b : BlockNumber}
    (hb : ¬ t.Holds b) (hmore : ∀ other, t'.Holds other ↔ other = b ∨ t.Holds other) :
    t'.len = t.len + 1 := by
  have hperm : (t'.records.map Record.block).Perm (b :: t.records.map Record.block) := by
    rw [holds_iff_mem hm] at hb
    refine (List.perm_ext_iff_of_nodup hm'.unique
      (List.nodup_cons.mpr ⟨hb, hm.unique⟩)).mpr fun other => ?_
    rw [← holds_iff_mem hm', List.mem_cons, ← holds_iff_mem hm]
    exact hmore other
  have hlength := hperm.length_eq
  rw [List.length_cons, List.length_map, List.length_map] at hlength
  rw [hm'.len_eq, hm.len_eq, hlength]

/-- The transaction the record of a block gets when the block is revoked. -/
def merged (t : Table) (b : BlockNumber) (tid : Tid) : Tid :=
  match t.lookup b with
  | some r => r.sequence.latest tid
  | none => tid

/-- A table and its pool after a block was put into the table. -/
structure Recorded (t : Table) (p : Pool) (b : BlockNumber) (tid : Tid) (t' : Table) (p' : Pool) :
    Prop where
  -- The table is still a map.
  isMap : t'.IsMap
  -- The block has its record, and the others have theirs.
  lookup_eq : ∀ other,
    t'.lookup other = if other = b then some ⟨b, t.merged b tid⟩ else t.lookup other
  -- The pool has as many more records in use as the table has more records.
  paid : p'.inUse + t.len = p.inUse + t'.len
  -- The limit is the same.
  limit_eq : p'.limit = p.limit

theorem Recorded.holds_iff {t t' : Table} {p p' : Pool} {b : BlockNumber} {tid : Tid}
    (hr : t.Recorded p b tid t' p') (other : BlockNumber) :
    t'.Holds other ↔ other = b ∨ t.Holds other := by
  unfold Holds
  rw [hr.lookup_eq]
  by_cases ho : other = b
  · simp only [ho, if_true, Option.isSome_some, true_or]
  · simp only [ho, if_false, false_or]

-- There is one more record if the block had none.
theorem Recorded.len_eq {t t' : Table} {p p' : Pool} {b : BlockNumber} {tid : Tid}
    (hr : t.Recorded p b tid t' p') (hm : t.IsMap) :
    t'.len = t.len + if (t.lookup b).isSome then 0 else 1 := by
  by_cases hb : (t.lookup b).isSome = true
  · rw [if_pos hb]
    refine hm.len_congr hr.isMap fun other => ?_
    rw [hr.holds_iff]
    exact ⟨fun h => h.elim (fun heq => by rw [heq]; exact hb) id, Or.inr⟩
  · rw [if_neg hb]
    exact hm.len_insert hr.isMap hb hr.holds_iff

-- Recording a block that has a record moves the record to the later transaction.
theorem record_of_holds {t : Table} (hm : t.IsMap) (p : Pool) {b : BlockNumber} (tid : Tid)
    (hb : t.Holds b) :
    ∃ t', record b tid (t, p) = (.ok true, t', p) ∧ t.Recorded p b tid t' p := by
  rcases Option.isSome_iff_exists.mp hb with ⟨r, hl⟩
  cases hf : t.find b with
  | none =>
      rw [lookup, hf] at hl
      exact absurd hl (by simp only [reduceCtorEq, not_false_eq_true])
  | some h =>
      rcases get?_of_find hf with ⟨_, r', hg, hrb⟩
      have hrr : r' = r := by
        rw [lookup, hf] at hl
        simpa only [hg, Option.some.injEq] using hl
      rw [hrr] at hg hrb
      refine ⟨t.set h (r.sequence.latest tid), by simp only [record, hf, hg], ?_⟩
      refine ⟨isMap_set hm hg _, fun other => ?_, rfl, rfl⟩
      have hmerged : t.merged b tid = r.sequence.latest tid := by
        simp only [merged, hl]
      rw [lookup_set hm hg, hrb, hmerged]

/-- Recording succeeds and says whether there was a record, or the block had none and
    the pool refuses. -/
theorem record_cases {t : Table} (hm : t.IsMap) (p : Pool) (b : BlockNumber) (tid : Tid) :
    (∃ t' p', record b tid (t, p) = (.ok (t.lookup b).isSome, t', p') ∧
      t.Recorded p b tid t' p') ∨
    (∃ e p', record b tid (t, p) = (.error e, t, p') ∧ ¬ t.Holds b ∧
      p.charge = (.error e, p')) := by
  by_cases hb : t.Holds b
  · rcases record_of_holds hm p tid hb with ⟨t', heq, hrec⟩
    exact Or.inl ⟨t', p, by rw [heq, hb], hrec⟩
  · have hnone : t.lookup b = none := by
      by_contra hc
      exact hb (holds_iff_ne_none.mpr hc)
    have hf : t.find b = none := (find_eq_none_iff_not_holds hm.toWellFormed).mpr hb
    rcases hc : p.charge with ⟨e | ⟨⟩, p'⟩
    · exact Or.inr ⟨e, p', by simp only [record, hf, insert_eq, hc], hb, rfl⟩
    · refine Or.inl ⟨t.pushed b tid, p', by simp only [record, hf, insert_eq, hc, hnone]; rfl, ?_⟩
      rcases Pool.charge_ok hc with ⟨huse, hlimit, _⟩
      refine ⟨isMap_pushed hm tid hnone, fun other => ?_, ?_, hlimit⟩
      · rw [lookup_pushed hm tid hnone, merged, hnone]
      · change p'.inUse + t.len = p.inUse + (t.len + 1)
        omega

/-- A table and its pool after a block was taken out of the table. -/
structure Erased (t : Table) (p : Pool) (b : BlockNumber) (t' : Table) (p' : Pool) : Prop where
  -- The table is still a map.
  isMap : t'.IsMap
  -- The block has no record, and the others have theirs.
  lookup_eq : ∀ other, t'.lookup other = if other = b then none else t.lookup other
  -- The pool has as many records less in use as the table has less records.
  paid : t.len ≤ p.inUse → p'.inUse + t.len = p.inUse + t'.len
  -- It never has more in use.
  inUse_le : p'.inUse ≤ p.inUse
  -- The limit is the same.
  limit_eq : p'.limit = p.limit

theorem Erased.holds_iff {t t' : Table} {p p' : Pool} {b : BlockNumber}
    (he : t.Erased p b t' p') (other : BlockNumber) :
    t'.Holds other ↔ other ≠ b ∧ t.Holds other := by
  unfold Holds
  rw [he.lookup_eq]
  by_cases ho : other = b
  · simp only [ho, if_true, Option.isSome_none, Bool.false_eq_true, ne_eq, not_true_eq_false,
      false_and]
  · simp only [ho, if_false, ne_eq, not_false_eq_true, true_and]

-- The records that are left are those of the other blocks, in some order.
theorem Erased.records_perm {t t' : Table} {p p' : Pool} {b : BlockNumber} (hm : t.IsMap)
    (he : t.Erased p b t' p') : t'.records.Perm (t.records.filter fun r => r.block ≠ b) := by
  refine (List.perm_ext_iff_of_nodup he.isMap.unique.of_map
    (hm.unique.of_map.filter _)).mpr fun r => ?_
  have hmem : t.lookup r.block = some r ↔ r ∈ t.records := by
    rw [lookup_eq_some_iff hm]
    simp only [and_true]
  have hmem' : t'.lookup r.block = some r ↔ r ∈ t'.records := by
    rw [lookup_eq_some_iff he.isMap]
    simp only [and_true]
  rw [← hmem', he.lookup_eq, List.mem_filter, decide_eq_true_eq]
  by_cases hr : r.block = b
  · simp only [hr, if_true, reduceCtorEq, ne_eq, not_true_eq_false, and_false]
  · rw [if_neg hr, hmem]
    simp only [ne_eq, hr, not_false_eq_true, and_true]

-- There is one record less if the block had one.
theorem Erased.len_eq {t t' : Table} {p p' : Pool} {b : BlockNumber} (he : t.Erased p b t' p')
    (hm : t.IsMap) : t'.len + (if t.Holds b then 1 else 0) = t.len := by
  by_cases hb : t.Holds b
  · rw [if_pos hb]
    refine (he.isMap.len_insert hm (fun h => ((he.holds_iff b).mp h).1 rfl) fun other => ?_).symm
    rw [he.holds_iff]
    by_cases ho : other = b
    · simp only [ho, hb, true_or]
    · simp only [ho, ne_eq, not_false_eq_true, true_and, false_or]
  · rw [if_neg hb]
    refine hm.len_congr he.isMap fun other => ?_
    rw [he.holds_iff]
    exact ⟨fun h => h.2, fun h => ⟨fun heq => hb (heq ▸ h), h⟩⟩

-- A table is without a block that it never had.
theorem Erased.of_not_holds {t : Table} (hm : t.IsMap) (p : Pool) {b : BlockNumber}
    (hb : ¬ t.Holds b) : t.Erased p b t p := by
  refine ⟨hm, fun other => ?_, fun _ => rfl, Nat.le_refl _, rfl⟩
  by_cases ho : other = b
  · rw [if_pos ho, ho]
    by_contra hc
    exact hb (holds_iff_ne_none.mpr hc)
  · rw [if_neg ho]

/-- The record that a search finds can be taken out. -/
theorem remove_of_holds {t : Table} (hm : t.IsMap) (p : Pool) {b : BlockNumber} (hb : t.Holds b) :
    ∃ h r t' p', t.find b = some h ∧ t.remove p h = (some r, t', p') ∧ t.Erased p b t' p' := by
  cases hf : t.find b with
  | none => exact absurd hb ((find_eq_none_iff_not_holds hm.toWellFormed).mp hf)
  | some h =>
      rcases get?_of_find hf with ⟨_, r, hg, hrb⟩
      refine ⟨h, r, t.removed h, p.release 1, rfl, remove_eq p hg, isMap_removed hm hg,
        fun other => ?_, fun hpaid => ?_, ?_, ?_⟩
      · rw [lookup_removed hm hg, hrb]
      · have hlen := (records_removed hg).length_eq
        rw [List.length_cons, ← hm.len_eq] at hlen
        have hone : 1 ≤ p.inUse := by omega
        have hrest := (isMap_removed hm hg).len_eq
        simp only [Pool.release, if_pos hone]
        omega
      · unfold Pool.release
        split
        · exact Nat.sub_le _ _
        · exact Nat.le_refl _
      · unfold Pool.release
        split
        · rfl
        · rfl

end Table

end BlockJournal
