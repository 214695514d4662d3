import BlockJournal.Table.Lemmas
import Mathlib.Data.List.Nodup
import Mathlib.Data.List.Perm.Basic

/-!
# Tables as Maps

A revoke table seen as a map from blocks to transactions.

A table is a map if every record sits in the bucket of its block and no block
has two records. `Table.WellFormed` says the first, together with what the
number of buckets and the number of records have to be; `Table.IsMap` adds the
second. Inserting a block that is already there breaks the second and nothing
else, so the callers that look before they insert keep both.

`records_split` carries the proofs. It takes one chain out of the list of all
records and says that whatever is done to the chain is done to that part of
the list and to no other. Chains are then no longer looked at: each operation
is described by a permutation of `Table.records`, and each lookup by membership
in it, as `lookup_eq_some_iff` says.

## Main definitions

* `Table.WellFormed`: Every record is where a search for its block looks.
* `Table.IsMap`: No block has two records, either.

## Theorems

* `isMap_create`, `isMap_pushed`, `isMap_set`, `isMap_removed`, `isMap_emptied`: What
  keeps a table a map.
* `mem_records`: A record of a table is in some chain.
* `records_eq`, `records_split`: What is done to one chain is done to part of the records.
* `wellFormed_pushed`, `wellFormed_set`, `wellFormed_removed`: What keeps records placed,
  whether or not they are those of a map.
* `lookup_eq_some_iff`, `lookup_eq_none_iff`: What a search finds.
* `insert_eq`, `remove_eq`: An insertion and a removal as changes of one chain.
* `lookup_pushed`, `lookup_set`, `lookup_removed`, `lookup_emptied`: What a search
  finds after a change.
-/

namespace BlockJournal

namespace Table

/-- A table whose records are where a search for their blocks looks, with as many
    buckets as its number of bits says and its records counted. -/
structure WellFormed (t : Table) : Prop where
  -- A bucket index is a part of a word.
  bits_le : t.bits ≤ 64
  -- The number of buckets.
  size_eq : t.buckets.size = 2 ^ t.bits
  -- Every record is in the bucket of its block.
  placed : ∀ i, ∀ r ∈ t.chain i, t.bucketOf r.block = i
  -- The count is that of the records.
  len_eq : t.len = t.records.length

/-- A well-formed table in which no block has two records. -/
structure IsMap (t : Table) : Prop extends WellFormed t where
  -- The blocks of the records are all different.
  unique : (t.records.map Record.block).Nodup

theorem bucketOf_lt {t : Table} (hw : t.WellFormed) (b : BlockNumber) :
    t.bucketOf b < t.buckets.size := by
  rw [hw.size_eq]
  exact bucketIndex_lt b hw.bits_le

/-- A record of a table is in some chain. -/
theorem mem_records {t : Table} {r : Record} : r ∈ t.records ↔ ∃ i, r ∈ t.chain i := by
  simp only [records, List.mem_flatMap, List.mem_reverse]
  constructor
  · rintro ⟨c, hc, hr⟩
    rcases List.mem_iff_getElem.mp hc with ⟨i, hi, rfl⟩
    refine ⟨i, ?_⟩
    have hi' : i < t.buckets.size := by simpa only [Array.length_toList] using hi
    rw [chain, Array.getD_eq_getD_getElem?, Array.getElem?_eq_getElem hi', Option.getD_some]
    simpa only [Array.getElem_toList] using hr
  · rintro ⟨i, hr⟩
    by_cases hi : i < t.buckets.size
    · rw [chain, Array.getD_eq_getD_getElem?, Array.getElem?_eq_getElem hi, Option.getD_some] at hr
      exact ⟨t.buckets[i], by simp, hr⟩
    · -- There is no such bucket, so its chain is empty.
      rw [chain, Array.getD_eq_getD_getElem?, Array.getElem?_eq_none (by omega)] at hr
      simp only [Option.getD_none, List.not_mem_nil] at hr

theorem mem_records_iff {t : Table} (hw : t.WellFormed) {r : Record} :
    r ∈ t.records ↔ r ∈ t.chain (t.bucketOf r.block) := by
  rw [mem_records]
  constructor
  · rintro ⟨i, hr⟩
    rw [hw.placed i r hr]
    exact hr
  · exact fun hr => ⟨_, hr⟩

/-- The records, with one chain taken out, and with something done to it: the records of
    the other chains stay where they are. -/
theorem records_eq (t : Table) {i : Nat} (hi : i < t.buckets.size) :
    t.records = (t.buckets.toList.take i).flatMap List.reverse ++ ((t.chain i).reverse ++
        (t.buckets.toList.drop (i + 1)).flatMap List.reverse) ∧
      ∀ (f : List Record → List Record) (len : Nat),
        ({ t with buckets := t.buckets.modify i f, len := len } : Table).records =
          (t.buckets.toList.take i).flatMap List.reverse ++ ((f (t.chain i)).reverse ++
            (t.buckets.toList.drop (i + 1)).flatMap List.reverse) := by
  have hl : i < t.buckets.toList.length := by simpa only [Array.length_toList] using hi
  have hc : t.chain i = t.buckets.toList[i] := by
    rw [chain, Array.getD_eq_getD_getElem?, Array.getElem?_eq_getElem hi, Option.getD_some,
      Array.getElem_toList]
  refine ⟨?_, fun f len => ?_⟩
  · have hsplit := (List.take_append_drop i t.buckets.toList).symm
    rw [List.drop_eq_getElem_cons hl, ← hc] at hsplit
    rw [records]
    conv_lhs => rw [hsplit]
    rw [List.flatMap_append, List.flatMap_cons]
  · have hsplit : (t.buckets.modify i f).toList =
        t.buckets.toList.take i ++ f (t.chain i) :: t.buckets.toList.drop (i + 1) := by
      rw [Array.toList_modify, List.modify_eq_take_cons_drop hl, hc]
    simp only [records, hsplit, List.flatMap_append, List.flatMap_cons]

/-- One chain is part of the records, and what is done to it is done to that
    part alone. -/
theorem records_split (t : Table) {i : Nat} (hi : i < t.buckets.size) :
    ∃ rest, t.records.Perm (t.chain i ++ rest) ∧
      ∀ (f : List Record → List Record) (len : Nat),
        ({ t with buckets := t.buckets.modify i f, len := len } : Table).records.Perm
          (f (t.chain i) ++ rest) := by
  rcases t.records_eq hi with ⟨hall, hchanged⟩
  -- The other chains, those before the one taken out and those after it.
  refine ⟨(t.buckets.toList.take i).flatMap List.reverse ++
    (t.buckets.toList.drop (i + 1)).flatMap List.reverse, ?_, fun f len => ?_⟩
  · rw [hall]
    refine (List.perm_append_comm_assoc _ _ _).trans ?_
    exact (List.reverse_perm _).append_right _
  · rw [hchanged]
    refine (List.perm_append_comm_assoc _ _ _).trans ?_
    exact (List.reverse_perm _).append_right _

-- A search that finds something finds a record of the block, in its bucket.
theorem get?_of_find {t : Table} {b : BlockNumber} {h : Handle} (hf : t.find b = some h) :
    h.bucket = t.bucketOf b ∧ ∃ r, t.get? h = some r ∧ r.block = b := by
  simp only [find] at hf
  cases hi : (t.chain (t.bucketOf b)).findIdx? (fun r => r.block = b) with
  | none => rw [hi] at hf; exact absurd hf (by simp only [reduceCtorEq, not_false_eq_true])
  | some slot =>
      rw [hi] at hf
      simp only [Option.some.injEq] at hf
      rw [List.findIdx?_eq_some_iff_getElem] at hi
      rcases hi with ⟨hs, hb, _⟩
      rw [← hf]
      refine ⟨rfl, (t.chain (t.bucketOf b))[slot], ?_, by simpa only [decide_eq_true_eq] using hb⟩
      exact List.getElem?_eq_getElem hs

theorem find_eq_none_iff {t : Table} (hw : t.WellFormed) {b : BlockNumber} :
    t.find b = none ↔ ∀ r ∈ t.records, r.block ≠ b := by
  simp only [find]
  cases hi : (t.chain (t.bucketOf b)).findIdx? (fun r => r.block = b) with
  | none =>
      rw [List.findIdx?_eq_none_iff] at hi
      simp only [true_iff]
      intro r hr hb
      -- A record of the block would be in the chain that was searched.
      rw [mem_records_iff hw, hb] at hr
      exact absurd hb (by simpa only [decide_eq_false_iff_not] using hi r hr)
  | some slot =>
      rw [List.findIdx?_eq_some_iff_getElem] at hi
      rcases hi with ⟨hs, hb, _⟩
      simp only [reduceCtorEq, ne_eq, false_iff, not_forall, not_not]
      exact ⟨_, mem_records.mpr ⟨_, List.getElem_mem hs⟩, by simpa only [decide_eq_true_eq] using hb⟩

theorem lookup_eq_none_iff {t : Table} (hw : t.WellFormed) {b : BlockNumber} :
    t.lookup b = none ↔ ∀ r ∈ t.records, r.block ≠ b := by
  rw [← find_eq_none_iff hw, lookup]
  cases hf : t.find b with
  | none => simp only []
  | some h =>
      rcases get?_of_find hf with ⟨_, r, hr, _⟩
      simp only [hr, reduceCtorEq]

-- Two records of one block are the same record.
theorem IsMap.eq_of_block_eq {t : Table} (hm : t.IsMap) {r r' : Record} (hr : r ∈ t.records)
    (hr' : r' ∈ t.records) (hb : r.block = r'.block) : r = r' :=
  List.inj_on_of_nodup_map hm.unique hr hr' hb

/-- What a search finds: the record of the block, if it is there. -/
theorem lookup_eq_some_iff {t : Table} (hm : t.IsMap) {b : BlockNumber} {r : Record} :
    t.lookup b = some r ↔ r ∈ t.records ∧ r.block = b := by
  have hfound : ∀ r', t.lookup b = some r' → r' ∈ t.records ∧ r'.block = b := by
    intro r' hl
    rw [lookup] at hl
    cases hf : t.find b with
    | none => rw [hf] at hl; exact absurd hl (by simp only [reduceCtorEq, not_false_eq_true])
    | some h =>
        rw [hf] at hl
        rcases get?_of_find hf with ⟨_, r'', hr, hb⟩
        simp only [hr, Option.some.injEq] at hl
        rw [← hl]
        exact ⟨mem_records.mpr ⟨_, List.mem_of_getElem? hr⟩, hb⟩
  refine ⟨hfound r, ?_⟩
  rintro ⟨hr, hb⟩
  cases hl : t.lookup b with
  | none => exact absurd hb ((lookup_eq_none_iff hm.toWellFormed).mp hl r hr)
  | some r' =>
      rcases hfound r' hl with ⟨hr', hb'⟩
      rw [hm.eq_of_block_eq hr hr' (hb.trans hb'.symm)]

/-- A table with one chain changed. -/
def withChain (t : Table) (i : Nat) (f : List Record → List Record) (len : Nat) : Table :=
  { t with buckets := t.buckets.modify i f, len := len }

theorem chain_withChain {t : Table} {i : Nat} (hi : i < t.buckets.size)
    (f : List Record → List Record) (len j : Nat) :
    (t.withChain i f len).chain j = if i = j then f (t.chain j) else t.chain j := by
  simp only [withChain, chain, Array.getD_eq_getD_getElem?, Array.getElem?_modify]
  by_cases hij : i = j
  · rw [if_pos hij, if_pos hij, ← hij, Array.getElem?_eq_getElem hi]
    rfl
  · rw [if_neg hij, if_neg hij]

-- A change of one chain keeps a table well-formed if the records that are new in
-- it belong there and the count is put right.
theorem WellFormed.withChain {t : Table} (hw : t.WellFormed) {i : Nat}
    (hi : i < t.buckets.size) {f : List Record → List Record} {len : Nat}
    (hf : ∀ r ∈ f (t.chain i), t.bucketOf r.block = i)
    (hlen : len + (t.chain i).length = t.len + (f (t.chain i)).length) :
    (t.withChain i f len).WellFormed := by
  refine ⟨hw.bits_le, by simpa only [Table.withChain, Array.size_modify] using hw.size_eq, ?_, ?_⟩
  · intro j r hr
    rw [chain_withChain hi] at hr
    change t.bucketOf r.block = j
    by_cases hij : i = j
    · rw [if_pos hij, ← hij] at hr
      rw [← hij]
      exact hf r hr
    · rw [if_neg hij] at hr
      exact hw.placed j r hr
  · rcases records_split t hi with ⟨rest, hall, hchanged⟩
    have hbefore := hall.length_eq
    have hafter := (hchanged f len).length_eq
    have hcount := hw.len_eq
    simp only [List.length_append] at hbefore hafter
    change len = ({ t with buckets := t.buckets.modify i f, len := len } : Table).records.length
    omega

/-- The table with one more record. -/
def pushed (t : Table) (b : BlockNumber) (sequence : Tid) : Table :=
  t.withChain (t.bucketOf b) (· ++ [⟨b, sequence⟩]) (t.len + 1)

-- An insertion adds its record if the pool pays for it, and otherwise leaves the
-- table as it was.
theorem insert_eq (t : Table) (p : Pool) (b : BlockNumber) (sequence : Tid) :
    t.insert p b sequence =
      match p.charge with
      | (.error e, p) => (.error e, t, p)
      | (.ok (), p) =>
          (.ok ⟨t.bucketOf b, (t.chain (t.bucketOf b)).length⟩, t.pushed b sequence, p) := rfl

theorem records_pushed {t : Table} (hw : t.WellFormed) (b : BlockNumber) (sequence : Tid) :
    (t.pushed b sequence).records.Perm (⟨b, sequence⟩ :: t.records) := by
  rcases records_split t (bucketOf_lt hw b) with ⟨rest, hall, hchanged⟩
  refine (hchanged _ _).trans ?_
  rw [List.append_assoc, List.singleton_append]
  exact List.perm_middle.trans (hall.symm.cons _)

theorem wellFormed_pushed {t : Table} (hw : t.WellFormed) (b : BlockNumber) (sequence : Tid) :
    (t.pushed b sequence).WellFormed := by
  refine hw.withChain (bucketOf_lt hw b) ?_ ?_
  · intro r hr
    rcases List.mem_append.mp hr with hold | hnew
    · exact hw.placed _ r hold
    · rw [List.mem_singleton.mp hnew]
  · rw [List.length_append, List.length_singleton]
    omega

theorem isMap_pushed {t : Table} (hm : t.IsMap) {b : BlockNumber} (sequence : Tid)
    (habsent : t.lookup b = none) : (t.pushed b sequence).IsMap := by
  refine ⟨wellFormed_pushed hm.toWellFormed b sequence, ?_⟩
  refine ((records_pushed hm.toWellFormed b sequence).map Record.block).nodup_iff.mpr ?_
  rw [List.map_cons, List.nodup_cons]
  refine ⟨fun hb => ?_, hm.unique⟩
  rcases List.mem_map.mp hb with ⟨r, hr, hrb⟩
  exact (lookup_eq_none_iff hm.toWellFormed).mp habsent r hr hrb

-- After an insertion the block has the new record, and the others have theirs.
theorem lookup_pushed {t : Table} (hm : t.IsMap) {b : BlockNumber} (sequence : Tid)
    (habsent : t.lookup b = none) (other : BlockNumber) :
    (t.pushed b sequence).lookup other =
      if other = b then some ⟨b, sequence⟩ else t.lookup other := by
  ext r
  rw [lookup_eq_some_iff (isMap_pushed hm sequence habsent),
    (records_pushed hm.toWellFormed b sequence).mem_iff, List.mem_cons]
  by_cases ho : other = b
  · rw [if_pos ho, ho, Option.some.injEq]
    constructor
    · rintro ⟨rfl | hr, hrb⟩
      · rfl
      · exact absurd hrb ((lookup_eq_none_iff hm.toWellFormed).mp habsent r hr)
    · rintro rfl
      exact ⟨Or.inl rfl, rfl⟩
  · rw [if_neg ho, lookup_eq_some_iff hm]
    constructor
    · rintro ⟨rfl | hr, hrb⟩
      · exact absurd hrb.symm ho
      · exact ⟨hr, hrb⟩
    · rintro ⟨hr, hrb⟩
      exact ⟨Or.inr hr, hrb⟩

theorem bucket_lt_of_get? {t : Table} {h : Handle} {r : Record} (hg : t.get? h = some r) :
    h.bucket < t.buckets.size := by
  by_contra hc
  rw [get?, chain, Array.getD_eq_getD_getElem?, Array.getElem?_eq_none (by omega)] at hg
  exact absurd hg (by simp only [Option.getD_none, List.getElem?_nil, reduceCtorEq,
    not_false_eq_true])

-- Where there is no record there is nothing to change.
theorem set_eq_self {t : Table} {h : Handle} (hg : t.get? h = none) (sequence : Tid) :
    t.set h sequence = t := by
  rw [get?, List.getElem?_eq_none_iff] at hg
  have hsame : t.buckets.modify h.bucket
      (fun chain => chain.modify h.slot (fun r => { r with sequence := sequence })) = t.buckets := by
    apply Array.ext_getElem?
    intro i
    rw [Array.getElem?_modify]
    by_cases hi : h.bucket = i
    · rw [if_pos hi]
      rw [chain, Array.getD_eq_getD_getElem?, hi] at hg
      cases hc : t.buckets[i]? with
      | none => rfl
      | some c =>
          rw [hc, Option.getD_some] at hg
          rw [Option.map_some, List.modify_eq_self hg]
    · rw [if_neg hi]
  rw [set, hsame]

-- Changing the transaction of a record exchanges it for another of its block.
theorem records_set {t : Table} {h : Handle} {r : Record} (hg : t.get? h = some r)
    (sequence : Tid) :
    ∃ rest, t.records.Perm (r :: rest) ∧
      (t.set h sequence).records.Perm ({ r with sequence := sequence } :: rest) := by
  rcases records_split t (bucket_lt_of_get? hg) with ⟨rest, hall, hchanged⟩
  rcases List.getElem?_eq_some_iff.mp hg with ⟨hs, hr⟩
  refine ⟨(t.chain h.bucket).take h.slot ++ (t.chain h.bucket).drop (h.slot + 1) ++ rest, ?_, ?_⟩
  · refine hall.trans ?_
    have hsplit := (List.take_append_drop h.slot (t.chain h.bucket)).symm
    rw [List.drop_eq_getElem_cons hs, hr] at hsplit
    conv_lhs => rw [hsplit]
    rw [List.append_assoc, List.append_assoc]
    exact List.perm_middle
  · refine (hchanged _ t.len).trans ?_
    rw [List.modify_eq_take_cons_drop hs, hr, List.append_assoc, List.append_assoc]
    exact List.perm_middle

theorem wellFormed_set {t : Table} (hw : t.WellFormed) (h : Handle) (sequence : Tid) :
    (t.set h sequence).WellFormed := by
  cases hg : t.get? h with
  | some r =>
      refine hw.withChain (bucket_lt_of_get? hg) ?_ ?_
      · intro r' hr'
        rcases List.mem_iff_getElem?.mp hr' with ⟨j, hj⟩
        rw [List.getElem?_modify] at hj
        rcases Option.map_eq_some_iff.mp hj with ⟨old, hold, rfl⟩
        have hplaced := hw.placed h.bucket old (List.mem_of_getElem? hold)
        -- The block of the record is the same as before.
        split
        · exact hplaced
        · exact hplaced
      · rw [List.length_modify]
  | none =>
      rw [set_eq_self hg]
      exact hw

theorem isMap_set {t : Table} (hm : t.IsMap) {h : Handle} {r : Record} (hg : t.get? h = some r)
    (sequence : Tid) : (t.set h sequence).IsMap := by
  refine ⟨wellFormed_set hm.toWellFormed h sequence, ?_⟩
  rcases records_set hg sequence with ⟨rest, hbefore, hafter⟩
  have hunique := (hbefore.map Record.block).nodup_iff.mp hm.unique
  exact (hafter.map Record.block).nodup_iff.mpr hunique

/-- After a change of transaction the block of the record has the new one. -/
theorem lookup_set {t : Table} (hm : t.IsMap) {h : Handle} {r : Record} (hg : t.get? h = some r)
    (sequence : Tid) (other : BlockNumber) :
    (t.set h sequence).lookup other =
      if other = r.block then some { r with sequence := sequence } else t.lookup other := by
  rcases records_set hg sequence with ⟨rest, hbefore, hafter⟩
  have hunique := (hbefore.map Record.block).nodup_iff.mp hm.unique
  rw [List.map_cons, List.nodup_cons] at hunique
  ext r'
  rw [lookup_eq_some_iff (isMap_set hm hg sequence), hafter.mem_iff, List.mem_cons]
  by_cases ho : other = r.block
  · rw [if_pos ho, ho, Option.some.injEq]
    constructor
    · rintro ⟨rfl | hr', hb⟩
      · rfl
      · exact absurd (List.mem_map.mpr ⟨r', hr', hb⟩) hunique.1
    · rintro rfl
      exact ⟨Or.inl rfl, rfl⟩
  · rw [if_neg ho, lookup_eq_some_iff hm, hbefore.mem_iff, List.mem_cons]
    constructor
    · rintro ⟨rfl | hr', hb⟩
      · exact absurd hb.symm ho
      · exact ⟨Or.inr hr', hb⟩
    · rintro ⟨rfl | hr', hb⟩
      · exact absurd hb.symm ho
      · exact ⟨Or.inr hr', hb⟩

/-- The table without the record at a position. -/
def removed (t : Table) (h : Handle) : Table :=
  t.withChain h.bucket (swapRemove · h.slot) (t.len - 1)

theorem remove_eq {t : Table} (p : Pool) {h : Handle} {r : Record} (hg : t.get? h = some r) :
    t.remove p h = (some r, t.removed h, p.release 1) := by
  simp only [remove, hg]
  rfl

-- Removing a record takes it out of the records and leaves the others.
theorem records_removed {t : Table} {h : Handle} {r : Record} (hg : t.get? h = some r) :
    t.records.Perm (r :: (t.removed h).records) := by
  rcases records_split t (bucket_lt_of_get? hg) with ⟨rest, hall, hchanged⟩
  rcases List.getElem?_eq_some_iff.mp hg with ⟨hs, hr⟩
  have hswap := swapRemove_perm hs
  rw [hr] at hswap
  have hback := (hchanged (swapRemove · h.slot) (t.len - 1)).symm.cons r
  exact hall.trans ((hswap.append_right rest).symm.trans hback)

theorem wellFormed_removed {t : Table} (hw : t.WellFormed) {h : Handle} {r : Record}
    (hg : t.get? h = some r) : (t.removed h).WellFormed := by
  rcases List.getElem?_eq_some_iff.mp hg with ⟨hs, hr⟩
  refine hw.withChain (bucket_lt_of_get? hg) ?_ ?_
  · intro r' hr'
    exact hw.placed h.bucket r' ((swapRemove_perm hs).mem_iff.mp (List.mem_cons_of_mem _ hr'))
  · rw [length_swapRemove]
    have hcount := hw.len_eq
    have hlength := (records_removed hg).length_eq
    rw [List.length_cons] at hlength
    omega

theorem isMap_removed {t : Table} (hm : t.IsMap) {h : Handle} {r : Record}
    (hg : t.get? h = some r) : (t.removed h).IsMap := by
  refine ⟨wellFormed_removed hm.toWellFormed hg, ?_⟩
  have hunique := ((records_removed hg).map Record.block).nodup_iff.mp hm.unique
  rw [List.map_cons, List.nodup_cons] at hunique
  exact hunique.2

-- After a removal the block of the record has none, and the others have theirs.
theorem lookup_removed {t : Table} (hm : t.IsMap) {h : Handle} {r : Record}
    (hg : t.get? h = some r) (other : BlockNumber) :
    (t.removed h).lookup other = if other = r.block then none else t.lookup other := by
  have hperm := records_removed hg
  have hunique := (hperm.map Record.block).nodup_iff.mp hm.unique
  rw [List.map_cons, List.nodup_cons] at hunique
  ext r'
  rw [lookup_eq_some_iff (isMap_removed hm hg)]
  by_cases ho : other = r.block
  · rw [if_pos ho, ho]
    simp only [reduceCtorEq, iff_false, not_and]
    exact fun hr' hb => hunique.1 (List.mem_map.mpr ⟨r', hr', hb⟩)
  · rw [if_neg ho, lookup_eq_some_iff hm, hperm.mem_iff, List.mem_cons]
    constructor
    · rintro ⟨hr', hb⟩
      exact ⟨Or.inr hr', hb⟩
    · rintro ⟨rfl | hr', hb⟩
      · exact absurd hb.symm ho
      · exact ⟨hr', hb⟩

theorem isMap_emptied {t : Table} (hw : t.WellFormed) : t.emptied.IsMap := by
  refine ⟨⟨hw.bits_le, ?_, ?_, ?_⟩, ?_⟩
  · simpa only [emptied, Array.size_map] using hw.size_eq
  · intro i r hr
    rw [chain_emptied] at hr
    exact absurd hr List.not_mem_nil
  · rw [records_emptied]
    rfl
  · rw [records_emptied]
    exact List.nodup_nil

@[simp] theorem lookup_emptied (t : Table) (b : BlockNumber) : t.emptied.lookup b = none := by
  rw [lookup, find, chain_emptied]
  rfl

-- A new table is a map with nothing in it.
theorem isMap_create {hashSize : Nat} {t : Table} (hc : create hashSize = .ok t) :
    t.IsMap ∧ t.records = [] := by
  unfold create checkHashSize at hc
  by_cases hp : isPowerOfTwo hashSize = true
  · rw [if_pos hp] at hc
    by_cases hs : hashSize * bucketBytes < addressSpace / 2
    · simp only [if_pos hs, Except.ok.injEq] at hc
      have hpow : 2 ^ hashSize.log2 = hashSize := beq_iff_eq.mp hp
      have hnil : t.records = [] := by
        rw [← hc]
        simp only [records, Array.toList_replicate, List.flatMap_eq_nil_iff, List.mem_replicate,
          List.reverse_eq_nil_iff]
        exact fun c hc' => hc'.2
      refine ⟨⟨⟨?_, ?_, ?_, ?_⟩, ?_⟩, hnil⟩
      · have hlt : (2 : Nat) ^ t.bits < 2 ^ 64 := by
          rw [← hc]
          simp only [hpow, bucketBytes, addressSpace, UInt64.size] at hs ⊢
          omega
        exact Nat.le_of_lt ((Nat.pow_lt_pow_iff_right (by decide)).mp hlt)
      · rw [← hc]
        simp only [Array.size_replicate, hpow]
      · intro i r hr
        have hmem := mem_records.mpr ⟨i, hr⟩
        rw [hnil] at hmem
        exact absurd hmem List.not_mem_nil
      · rw [hnil, ← hc]
        rfl
      · rw [hnil]
        exact List.nodup_nil
    · simp only [if_neg hs, reduceCtorEq] at hc
  · rw [if_neg hp] at hc
    exact absurd hc (by simp only [reduceCtorEq, not_false_eq_true])

end Table

end BlockJournal
