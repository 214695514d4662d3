import BlockJournal.Proofs.Charging
import BlockJournal.Proofs.Descriptor
import BlockJournal.Proofs.Table.Recording
import BlockJournal.Proofs.TidWindow
import Mathlib.Data.List.Dedup

/-!
# What a Recovery Gathers

The table of a recovery as a summary of the revokes it has read.

Of two revokes of a block the table keeps the later one, so in the end it holds
for each block the latest of all that were read, in whatever order they came. This
takes an order: the transactions that wrote the log have to lie in a window, as
`Tid.isAfter_iff` asks. `Recovery.Merged` relates the table to the revokes read so
far, and every step of a scan keeps it.

A step fails only if it needs a new record and the pool does not pay for one. There
is one record for each block, so the pool has to have room for as many records as
there are different blocks, and `Recovery.HasRoom` counts in those that are in the
table already: it does not change during a scan. A recovery that is alone on a pool
without a limit (`Recovery.Gathered`) has room for every log it can read.

## Main definitions

* `RevokeBlock.records`, `revokesIn`: The revokes in a descriptor, and in a log.
* `Readable`: A block that a scan can read or need not read.
* `Recovery.Merged`: A recovery that holds the latest of the revokes read so far.
* `Recovery.Paid`, `Recovery.HasRoom`: What the pool paid for, and what it can pay for.
* `Recovery.Gathered`: The same for a recovery that is alone on a pool.

## Theorems

* `stats_scan`: What a scan counts.
* `Merged.length_eq`: How many records there are.
* `add_cases`, `lookup_add`: What comes of one revoke.
* `Merged.of_add`: What was gathered if it was recorded.
* `Merged.add`, `Merged.addAll`, `Merged.scanBlock`, `Merged.scan`: What each step of a
  scan gathers.
* `Merged.isStale_iff`: The images that are stale.
-/

namespace BlockJournal

/-- The revokes in a descriptor, as records. -/
def RevokeBlock.records (r : RevokeBlock) : List Record := r.blocks.map (⟨·, r.sequence⟩)

/-- The revokes in the blocks of a log that can be read as descriptors. -/
def revokesIn (width : RecordWidth) (blocks : List (BlockNumber × Bytes)) : List Record :=
  blocks.flatMap fun block =>
    match RevokeBlock.parse block.2 width with
    | .ok p => p.records
    | .error _ => []

theorem mem_revokesIn {width : RecordWidth} {blocks : List (BlockNumber × Bytes)} {rec : Record} :
    rec ∈ revokesIn width blocks ↔ ∃ block ∈ blocks, ∃ p,
      RevokeBlock.parse block.2 width = .ok p ∧ rec.block ∈ p.blocks ∧
        rec.sequence = p.sequence := by
  unfold revokesIn
  rw [List.mem_flatMap]
  refine exists_congr fun block => and_congr_right fun _ => ?_
  cases hparse : RevokeBlock.parse block.2 width with
  | error e => simp only [List.not_mem_nil, reduceCtorEq, false_and, exists_false]
  | ok p =>
      simp only [RevokeBlock.records, List.mem_map, Except.ok.injEq, exists_eq_left']
      constructor
      · rintro ⟨b, hb, rfl⟩
        exact ⟨hb, rfl⟩
      · rintro ⟨hb, hsequence⟩
        exact ⟨rec.block, hb, by rw [← hsequence]⟩

-- Blocks of a limited size hold a limited number of revokes.
theorem length_revokesIn_le {width : RecordWidth} {blocks : List (BlockNumber × Bytes)} {size : Nat}
    (hsize : ∀ block ∈ blocks, block.2.length = size) :
    (revokesIn width blocks).length ≤ size * blocks.length := by
  induction blocks with
  | nil => exact Nat.zero_le _
  | cons block blocks ih =>
      have hrest := ih fun other hother => hsize other (List.mem_cons_of_mem block hother)
      have hfirst := hsize block List.mem_cons_self
      have hsplit : (revokesIn width (block :: blocks)).length =
          (match RevokeBlock.parse block.2 width with
            | .ok p => p.records
            | .error _ => []).length + (revokesIn width blocks).length := List.length_append
      rw [hsplit, List.length_cons, Nat.mul_succ]
      cases hparse : RevokeBlock.parse block.2 width with
      | error e =>
          simp only [List.length_nil]
          omega
      | ok p =>
          have hp := RevokeBlock.length_le_of_parse hparse
          simp only [RevokeBlock.records, List.length_map]
          omega

/-- A block of a log that a scan passes over or can read, and reads only if its transaction
    lies in the window that starts at `base`. -/
def Readable (width : RecordWidth) (base : Tid) (data : Bytes) : Prop :=
  isRevokeBlock data = false ∨
    ∃ p, RevokeBlock.parse data width = .ok p ∧ p.sequence.stepsFrom base < Tid.halfCircle

-- What a scan passes over lists nothing.
theorem revokesIn_cons_of_not_revoke {width : RecordWidth} {block : BlockNumber × Bytes}
    (h : isRevokeBlock block.2 = false) (blocks : List (BlockNumber × Bytes)) :
    revokesIn width (block :: blocks) = revokesIn width blocks := by
  cases hparse : RevokeBlock.parse block.2 width with
  | error e => simp only [revokesIn, List.flatMap_cons, hparse, List.nil_append]
  | ok p =>
      rw [RevokeBlock.isRevokeBlock_of_parse hparse] at h
      exact absurd h (by simp only [reduceCtorEq, not_false_eq_true])

theorem revokesIn_cons_of_parse {width : RecordWidth} {block : BlockNumber × Bytes}
    {p : RevokeBlock} (h : RevokeBlock.parse block.2 width = .ok p)
    (blocks : List (BlockNumber × Bytes)) :
    revokesIn width (block :: blocks) = p.records ++ revokesIn width blocks := by
  simp only [revokesIn, List.flatMap_cons, h]

namespace Recovery

section

variable (r : Recovery)

-- Gathering changes the table and the pool, and it reports.
@[simp] theorem width_add (b : BlockNumber) (sequence : Tid) :
    (r.add b sequence).2.width = r.width := by
  simp only [add, insert]
  repeat' split
  all_goals rfl

@[simp] theorem stats_add (b : BlockNumber) (sequence : Tid) :
    (r.add b sequence).2.stats = r.stats := by
  simp only [add, insert]
  repeat' split
  all_goals rfl

theorem addAll_keeps (sequence : Tid) (blocks : List BlockNumber) :
    (r.addAll sequence blocks).2.width = r.width ∧
      (r.addAll sequence blocks).2.stats = r.stats := by
  induction blocks generalizing r with
  | nil => exact ⟨rfl, rfl⟩
  | cons b blocks ih =>
      have hwidth := width_add r b sequence
      have hstats := stats_add r b sequence
      rcases hadd : r.add b sequence with ⟨_ | ⟨⟩, r₁⟩
      · rw [hadd] at hwidth hstats
        simp only [addAll, hadd]
        exact ⟨hwidth, hstats⟩
      · rw [hadd] at hwidth hstats
        rcases ih r₁ with ⟨hwidth₁, hstats₁⟩
        simp only [addAll, hadd]
        exact ⟨hwidth₁.trans hwidth, hstats₁.trans hstats⟩

end

variable {r r' : Recovery}

-- A descriptor is counted with its entries once all of them are in the table.
theorem stats_scanBlock {logBlock : BlockNumber} {data : Bytes} {entries : Nat}
    (h : r.scanBlock logBlock data = (.ok entries, r')) :
    ∃ p, RevokeBlock.parse data r.width = .ok p ∧ p.blocks.length = entries ∧
      r'.width = r.width ∧ r'.stats = { r.stats with
        revokeBlocks := r.stats.revokeBlocks + 1
        revokeRecords := r.stats.revokeRecords + UInt64.ofNat entries } := by
  unfold scanBlock at h
  cases hparse : RevokeBlock.parse data r.width with
  | error e => simp only [hparse, Prod.mk.injEq, reduceCtorEq, false_and] at h
  | ok p =>
      have hkeeps := addAll_keeps r p.sequence p.blocks
      rcases hadd : r.addAll p.sequence p.blocks with ⟨_ | ⟨⟩, r₁⟩
      · simp only [hparse, hadd, Prod.mk.injEq, reduceCtorEq, false_and] at h
      · simp only [hparse, hadd, Prod.mk.injEq, Except.ok.injEq] at h
        rw [hadd] at hkeeps
        rcases h with ⟨rfl, rfl⟩
        exact ⟨p, rfl, rfl, hkeeps.1, by rw [← hkeeps.2]; rfl⟩

/-- A scan counts every block once, and every entry of the descriptors among them. -/
theorem stats_scan {blocks : List (BlockNumber × Bytes)} (h : r.scan blocks = (.ok (), r')) :
    r'.stats.revokeBlocks + r'.stats.otherBlocks =
        r.stats.revokeBlocks + r.stats.otherBlocks + UInt64.ofNat blocks.length ∧
      r'.stats.revokeRecords =
        r.stats.revokeRecords + UInt64.ofNat (revokesIn r.width blocks).length ∧
      r'.stats.replayed = r.stats.replayed ∧ r'.stats.skipped = r.stats.skipped := by
  induction blocks generalizing r with
  | nil =>
      simp only [scan, Prod.mk.injEq, true_and] at h
      rw [← h]
      exact ⟨(UInt64.add_zero _).symm, (UInt64.add_zero _).symm, rfl, rfl⟩
  | cons block blocks ih =>
      unfold scan at h
      cases hrevoke : isRevokeBlock block.2 with
      | false =>
          simp only [hrevoke, Bool.false_eq_true, if_false] at h
          rcases ih h with ⟨hblocks, hrest⟩
          rw [revokesIn_cons_of_not_revoke hrevoke]
          refine ⟨?_, hrest⟩
          rw [hblocks, List.length_cons, UInt64.ofNat_add]
          simp only
          grind
      | true =>
          rcases hscan : r.scanBlock block.1 block.2 with ⟨stop | entries, r₁⟩
          · simp only [hrevoke, if_true, hscan, Prod.mk.injEq, reduceCtorEq, false_and] at h
          · simp only [hrevoke, if_true, hscan] at h
            rcases stats_scanBlock hscan with ⟨p, hparse, hlen, hwidth, hstats⟩
            rcases ih h with ⟨hblocks, hrecords, hrest⟩
            simp only [hstats] at hblocks hrecords hrest
            rw [hwidth] at hrecords
            rw [revokesIn_cons_of_parse hparse]
            refine ⟨?_, ?_, hrest⟩
            · rw [hblocks, List.length_cons, UInt64.ofNat_add]
              grind
            · rw [hrecords, List.length_append, RevokeBlock.records, List.length_map, hlen,
                UInt64.ofNat_add, UInt64.add_assoc]

/-- A recovery that has read the revokes `seen`, of transactions in the window that
    starts at `base`, and holds the latest of each block. -/
structure Merged (r : Recovery) (base : Tid) (seen : List Record) : Prop where
  -- The table is a map.
  isMap : r.table.IsMap
  -- Every transaction lies in the window.
  window : ∀ rec ∈ seen, rec.sequence.stepsFrom base < Tid.halfCircle
  -- What the table holds was read.
  mem : ∀ {b found}, r.table.lookup b = some found → found ∈ seen ∧ found.block = b
  -- What was read is in the table, or something later is.
  latest : ∀ rec ∈ seen, ∃ found, r.table.lookup rec.block = some found ∧
    rec.sequence.stepsFrom base ≤ found.sequence.stepsFrom base

/-- The pool paid for the records that came into the table, and for nothing else. -/
structure Paid (r r' : Recovery) : Prop where
  -- The pool has as many more records in use as the table has more records.
  inUse_eq : r'.pool.inUse + r.table.len = r.pool.inUse + r'.table.len
  -- The limit is the same.
  limit_eq : r'.pool.limit = r.pool.limit

theorem Paid.refl (r : Recovery) : Paid r r := ⟨rfl, rfl⟩

theorem Paid.trans {r₁ r₂ r₃ : Recovery} (h : Paid r₁ r₂) (h' : Paid r₂ r₃) : Paid r₁ r₃ := by
  have hfirst := h.inUse_eq
  have hsecond := h'.inUse_eq
  exact ⟨by omega, h'.limit_eq.trans h.limit_eq⟩

/-- The pool has room for a record of every block among the revokes, those included that
    are in the table already. -/
def HasRoom (r : Recovery) (listed : List Record) : Prop :=
  r.pool.inUse + (listed.map Record.block).dedup.length ≤ r.pool.capacity + r.table.len

-- Paying for the records makes no difference.
theorem Paid.hasRoom (h : Paid r r') {listed : List Record} (hroom : r.HasRoom listed) :
    r'.HasRoom listed := by
  have hpaid := h.inUse_eq
  unfold HasRoom Pool.capacity at hroom ⊢
  rw [h.limit_eq]
  omega

variable {base : Tid} {seen : List Record}

-- A recovery that was just created has read nothing.
theorem merged_create {hashSize : Nat} {width : RecordWidth} {policy : RetryPolicy} {pool : Pool}
    (hcreate : create hashSize width policy pool = .ok r) (base : Tid) :
    r.Merged base [] ∧ r.pool = pool ∧ r.table.len = 0 ∧ r.width = width ∧ r.stats = {} := by
  unfold create at hcreate
  cases htable : Table.create hashSize with
  | error e => simp only [htable, reduceCtorEq] at hcreate
  | ok table =>
      simp only [htable, Except.ok.injEq] at hcreate
      rcases Table.isMap_create htable with ⟨hmap, hrecords⟩
      have hlen : table.len = 0 := by
        rw [hmap.len_eq, hrecords, List.length_nil]
      rw [← hcreate]
      refine ⟨⟨hmap, fun _ h => absurd h List.not_mem_nil, fun {b found} h => ?_,
        fun _ h => absurd h List.not_mem_nil⟩, rfl, hlen, rfl, rfl⟩
      have hfound := ((Table.lookup_eq_some_iff hmap).mp h).1
      rw [hrecords] at hfound
      exact absurd hfound List.not_mem_nil

-- A block has a record exactly if it is among the blocks of the revokes that were read.
theorem Merged.mem_blocks_iff (hr : r.Merged base seen) {b : BlockNumber} :
    b ∈ r.table.records.map Record.block ↔ b ∈ seen.map Record.block := by
  rw [← Table.holds_iff_mem hr.isMap, Table.Holds, Option.isSome_iff_exists, List.mem_map]
  constructor
  · rintro ⟨found, hfound⟩
    exact ⟨found, hr.mem hfound⟩
  · rintro ⟨rec, hmem, rfl⟩
    rcases hr.latest rec hmem with ⟨found, hfound, _⟩
    exact ⟨found, hfound⟩

/-- There is one record for each block among the revokes that were read. -/
theorem Merged.length_eq (hr : r.Merged base seen) :
    r.table.len = (seen.map Record.block).dedup.length := by
  have hperm : (r.table.records.map Record.block).Perm (seen.map Record.block).dedup :=
    (List.perm_ext_iff_of_nodup hr.isMap.unique (List.nodup_dedup _)).mpr fun b => by
      rw [List.mem_dedup]
      exact hr.mem_blocks_iff
  rw [hr.isMap.len_eq, ← hperm.length_eq, List.length_map]

-- If there is room for all blocks then there is for one that has no record yet.
theorem Merged.inUse_lt_capacity (hr : r.Merged base seen) {listed : List Record}
    (hroom : r.HasRoom listed) (hseen : seen ⊆ listed) {rec : Record} (hrec : rec ∈ listed)
    (hnone : r.table.lookup rec.block = none) : r.pool.inUse < r.pool.capacity := by
  have hnew : rec.block ∉ r.table.records.map Record.block := by
    rw [← Table.holds_iff_mem hr.isMap, Table.holds_iff_ne_none]
    exact not_not_intro hnone
  have hsubset : rec.block :: r.table.records.map Record.block ⊆
      (listed.map Record.block).dedup := by
    intro b hb
    rw [List.mem_dedup]
    rcases List.mem_cons.mp hb with rfl | hb
    · exact List.mem_map_of_mem hrec
    · exact List.map_subset _ hseen (hr.mem_blocks_iff.mp hb)
  have hlen := (List.subperm_of_subset (List.nodup_cons.mpr ⟨hnew, hr.isMap.unique⟩)
    hsubset).length_le
  rw [List.length_cons, List.length_map, ← hr.isMap.len_eq] at hlen
  unfold HasRoom at hroom
  omega

-- An allocation that the pool pays for works.
theorem insert_eq_ok (hcapacity : r.pool.inUse < r.pool.capacity) (b : BlockNumber)
    (sequence : Tid) :
    ∃ r', r.insert b sequence = (.ok (), r') ∧ r'.table = r.table.pushed b sequence ∧
      Paid r r' := by
  rcases hc : r.pool.charge with ⟨e | ⟨⟩, pool⟩
  · rw [Pool.charge, if_pos hcapacity] at hc
    exact absurd hc (by simp only [Prod.mk.injEq, reduceCtorEq, false_and, not_false_eq_true])
  · rcases Pool.charge_ok hc with ⟨huse, hlimit, _⟩
    have hattempt : r.table.insert r.pool b sequence =
        (.ok ⟨r.table.bucketOf b, (r.table.chain (r.table.bucketOf b)).length⟩,
          r.table.pushed b sequence, pool) := by
      rw [Table.insert_eq, hc]
    have hretry : retry r.policy Journal.patience
        (fun tp : Table × Pool => tp.1.insert tp.2 b sequence) (r.table, r.pool) = ⟨_, _, []⟩ :=
      retry_of_ok hattempt Journal.patience
    refine ⟨{ r with table := r.table.pushed b sequence, pool := pool }, ?_, rfl, ?_, hlimit⟩
    · simp only [insert, hretry, List.map_nil, Array.append_empty]
    · change pool.inUse + r.table.len = r.pool.inUse + (r.table.len + 1)
      omega

-- What one more revoke comes to, whether it is new, later than the one there was, or
-- neither: the table keeps the latest.
theorem Merged.snoc (hr : r.Merged base seen) {sequence kept : Tid} {b : BlockNumber}
    (hwindow : sequence.stepsFrom base < Tid.halfCircle) (hmap : r'.table.IsMap)
    (hlookup : ∀ other,
      r'.table.lookup other = if other = b then some ⟨b, kept⟩ else r.table.lookup other)
    (hkept : kept = sequence ∨ r.table.lookup b = some ⟨b, kept⟩)
    (hnew : sequence.stepsFrom base ≤ kept.stepsFrom base)
    (hold : ∀ found, r.table.lookup b = some found →
      found.sequence.stepsFrom base ≤ kept.stepsFrom base) :
    r'.Merged base (seen ++ [⟨b, sequence⟩]) := by
  refine ⟨hmap, fun rec hrec => ?_, fun {other found} hfound => ?_, fun rec hrec => ?_⟩
  · rcases List.mem_append.mp hrec with hrec | hrec
    · exact hr.window rec hrec
    · rw [List.mem_singleton.mp hrec]
      exact hwindow
  · rw [hlookup] at hfound
    by_cases ho : other = b
    · rw [if_pos ho, Option.some.injEq] at hfound
      rw [← hfound, ho]
      refine ⟨?_, rfl⟩
      rcases hkept with rfl | hkept
      · exact List.mem_append_right _ (List.mem_singleton.mpr rfl)
      · exact List.mem_append_left _ (hr.mem hkept).1
    · rw [if_neg ho] at hfound
      exact ⟨List.mem_append_left _ (hr.mem hfound).1, (hr.mem hfound).2⟩
  · rw [hlookup]
    rcases List.mem_append.mp hrec with hrec | hrec
    · rcases hr.latest rec hrec with ⟨found, hfound, hle⟩
      by_cases hb : rec.block = b
      · rw [if_pos hb]
        rw [hb] at hfound
        exact ⟨_, rfl, Nat.le_trans hle (hold found hfound)⟩
      · rw [if_neg hb]
        exact ⟨found, hfound, hle⟩
    · rw [List.mem_singleton.mp hrec, if_pos rfl]
      exact ⟨_, rfl, hnew⟩

/-- Gathering one revoke gives up and leaves the table as it was, or it adds a record, or
    the record that is there gets the later transaction. -/
theorem add_cases (r : Recovery) (b : BlockNumber) (sequence : Tid) :
    (∃ stop r', r.add b sequence = (.error stop, r') ∧ stop.givesUp = true ∧
      r'.table = r.table) ∨
    (∃ r', r.add b sequence = (.ok (), r') ∧ r.table.find b = none ∧
      r'.table = r.table.pushed b sequence) ∨
    (∃ h found, r.table.find b = some h ∧ r.table.get? h = some found ∧ found.block = b ∧
      r.add b sequence = (.ok (), { r with
        table := if sequence.isAfter found.sequence then r.table.set h sequence else r.table })) := by
  cases hfind : r.table.find b with
  | none =>
      simp only [Recovery.add, hfind]
      rcases r.insert_outcome b sequence with
        ⟨p, hstate, hinsert, _⟩ | ⟨stop, p, hstate, hinsert, hstop, _⟩
      · exact Or.inr (Or.inl ⟨_, hinsert, trivial, by rw [attempted, hstate]⟩)
      · exact Or.inl ⟨stop, _, hinsert, hstop, by rw [attempted, hstate]⟩
  | some h =>
      rcases Table.get?_of_find hfind with ⟨_, found, hget, hblock⟩
      refine Or.inr (Or.inr ⟨h, found, rfl, hget, hblock, ?_⟩)
      simp only [Recovery.add, hfind, hget]
      by_cases hlater : sequence.isAfter found.sequence = true
      · simp only [hlater, if_true]
      · simp only [hlater]
        rfl

-- What gathering one revoke does to the table as a map.
theorem lookup_add (hm : r.table.IsMap) {b : BlockNumber} {sequence : Tid}
    (h : r.add b sequence = (.ok (), r')) :
    r'.table.IsMap ∧ ∀ other, r'.table.lookup other =
      if other = b then some ⟨b, r.table.merged b sequence⟩ else r.table.lookup other := by
  rcases r.add_cases b sequence with
    ⟨stop, r₁, hadd, _⟩ | ⟨r₁, hadd, hfind, htable⟩ | ⟨hd, found, hfind, hget, hblock, hadd⟩
  · rw [hadd] at h
    exact absurd h (by simp only [Prod.mk.injEq, reduceCtorEq, false_and, not_false_eq_true])
  · rw [hadd, Prod.mk.injEq] at h
    have hnone : r.table.lookup b = none := by simp only [Table.lookup, hfind]
    rw [← h.2, htable, Table.merged, hnone]
    exact ⟨Table.isMap_pushed hm sequence hnone, Table.lookup_pushed hm sequence hnone⟩
  · rw [hadd, Prod.mk.injEq] at h
    have hfound : r.table.lookup b = some found := by simp only [Table.lookup, hfind, hget]
    rw [← h.2, Table.merged, hfound]
    simp only [Tid.latest]
    by_cases hlater : sequence.isAfter found.sequence = true
    · simp only [hlater, if_true]
      refine ⟨Table.isMap_set hm hget sequence, fun other => ?_⟩
      rw [Table.lookup_set hm hget, hblock]
    · -- The record that is there stays.
      simp only [if_neg hlater]
      refine ⟨hm, fun other => ?_⟩
      by_cases ho : other = b
      · rw [if_pos ho, ho, hfound, ← hblock]
      · rw [if_neg ho]

-- Gathering one revoke works if the pool pays for the record that may be missing.
theorem add_eq_ok {b : BlockNumber} (sequence : Tid)
    (hcapacity : r.table.lookup b = none → r.pool.inUse < r.pool.capacity) :
    ∃ r', r.add b sequence = (.ok (), r') ∧ Paid r r' := by
  cases hfind : r.table.find b with
  | none =>
      have hnone : r.table.lookup b = none := by simp only [Table.lookup, hfind]
      rcases insert_eq_ok (hcapacity hnone) b sequence with ⟨r', heq, _, hpaid⟩
      exact ⟨r', by simp only [Recovery.add, hfind, heq], hpaid⟩
  | some h =>
      rcases Table.get?_of_find hfind with ⟨_, found, hget, _⟩
      by_cases hlater : sequence.isAfter found.sequence = true
      · exact ⟨{ r with table := r.table.set h sequence },
          by simp only [Recovery.add, hfind, hget, hlater, if_true], rfl, rfl⟩
      · exact ⟨r, by simp only [Recovery.add, hfind, hget, hlater]; rfl, Paid.refl r⟩

/-- A revoke that was gathered is among those whose latest the table holds. -/
theorem Merged.of_add (hr : r.Merged base seen) {sequence : Tid}
    (hwindow : sequence.stepsFrom base < Tid.halfCircle) {b : BlockNumber}
    (h : r.add b sequence = (.ok (), r')) : r'.Merged base (seen ++ [⟨b, sequence⟩]) := by
  rcases lookup_add hr.isMap h with ⟨hmap, hlookup⟩
  cases hfound : r.table.lookup b with
  | none =>
      have hmerged : r.table.merged b sequence = sequence := by simp only [Table.merged, hfound]
      rw [hmerged] at hlookup
      refine hr.snoc hwindow hmap hlookup (Or.inl rfl) (Nat.le_refl _) (fun found hf => ?_)
      rw [hfound] at hf
      exact absurd hf (by simp only [reduceCtorEq, not_false_eq_true])
  | some found =>
      rcases hr.mem hfound with ⟨hmem, hblock⟩
      have hafter := Tid.isAfter_iff hwindow (hr.window found hmem)
      have hmerged : r.table.merged b sequence = found.sequence.latest sequence := by
        simp only [Table.merged, hfound]
      have hold : ∀ old, r.table.lookup b = some old → old = found := by
        intro old hold
        rw [hfound, Option.some.injEq] at hold
        exact hold.symm
      rw [hmerged, Tid.latest] at hlookup
      by_cases hlater : sequence.isAfter found.sequence = true
      · rw [if_pos hlater] at hlookup
        refine hr.snoc hwindow hmap hlookup (Or.inl rfl) (Nat.le_refl _) (fun old hf => ?_)
        rw [hold old hf]
        exact Nat.le_of_lt (hafter.mp hlater)
      · -- The one there is stays, since it is not earlier.
        rw [if_neg hlater] at hlookup
        have hself : found = ⟨b, found.sequence⟩ := by rw [← hblock]
        refine hr.snoc hwindow hmap hlookup (Or.inr (hself ▸ hfound)) ?_ (fun old hf => ?_)
        · rw [hafter] at hlater
          exact Nat.le_of_not_lt hlater
        · rw [hold old hf]

/-- Gathering one revoke. -/
theorem Merged.add (hr : r.Merged base seen) {sequence : Tid}
    (hwindow : sequence.stepsFrom base < Tid.halfCircle) {b : BlockNumber}
    (hcapacity : r.table.lookup b = none → r.pool.inUse < r.pool.capacity) :
    ∃ r', r.add b sequence = (.ok (), r') ∧ r'.Merged base (seen ++ [⟨b, sequence⟩]) ∧
      Paid r r' := by
  rcases add_eq_ok sequence hcapacity with ⟨r', heq, hpaid⟩
  exact ⟨r', heq, hr.of_add hwindow heq, hpaid⟩

/-- Gathering the revokes of a transaction. -/
theorem Merged.addAll (hr : r.Merged base seen) {sequence : Tid}
    (hwindow : sequence.stepsFrom base < Tid.halfCircle) {blocks : List BlockNumber}
    {listed : List Record} (hroom : r.HasRoom listed)
    (hlisted : seen ++ (⟨sequence, blocks⟩ : RevokeBlock).records ⊆ listed) :
    ∃ r', r.addAll sequence blocks = (.ok (), r') ∧
      r'.Merged base (seen ++ (⟨sequence, blocks⟩ : RevokeBlock).records) ∧ Paid r r' := by
  induction blocks generalizing r seen with
  | nil =>
      refine ⟨r, rfl, ?_, Paid.refl r⟩
      rw [RevokeBlock.records, List.map_nil, List.append_nil]
      exact hr
  | cons b blocks ih =>
      have hsplit : seen ++ (⟨sequence, b :: blocks⟩ : RevokeBlock).records =
          seen ++ [⟨b, sequence⟩] ++ (⟨sequence, blocks⟩ : RevokeBlock).records :=
        (List.append_assoc seen [⟨b, sequence⟩] _).symm
      rw [hsplit] at hlisted ⊢
      have hfirst := (List.append_subset.mp hlisted).1
      have hcapacity := hr.inUse_lt_capacity hroom (List.append_subset.mp hfirst).1
        (hfirst (List.mem_append_right _ (List.mem_singleton.mpr rfl)))
      rcases hr.add hwindow hcapacity with ⟨r₁, heq₁, hr₁, hpaid₁⟩
      rcases ih hr₁ (hpaid₁.hasRoom hroom) hlisted with ⟨r₂, heq₂, hr₂, hpaid₂⟩
      exact ⟨r₂, by simp only [Recovery.addAll, heq₁, heq₂], hr₂, hpaid₁.trans hpaid₂⟩

/-- Gathering the revokes of a descriptor. -/
theorem Merged.scanBlock (hr : r.Merged base seen) {data : Bytes} {parsed : RevokeBlock}
    (hparse : RevokeBlock.parse data r.width = .ok parsed)
    (hwindow : parsed.sequence.stepsFrom base < Tid.halfCircle) {listed : List Record}
    (hroom : r.HasRoom listed) (hlisted : seen ++ parsed.records ⊆ listed)
    (logBlock : BlockNumber) :
    ∃ entries r', r.scanBlock logBlock data = (.ok entries, r') ∧
      r'.Merged base (seen ++ parsed.records) ∧ Paid r r' := by
  rcases hr.addAll hwindow hroom hlisted with ⟨r', heq, hr', hpaid⟩
  simp only [Recovery.scanBlock, hparse, heq]
  -- Counting and reporting have nothing to do with the table.
  exact ⟨_, _, rfl, ⟨hr'.isMap, hr'.window, hr'.mem, hr'.latest⟩, hpaid.inUse_eq, hpaid.limit_eq⟩

/-- A scan of blocks that can be read gathers the revokes in all of them. -/
theorem Merged.scan (hr : r.Merged base seen) {width : RecordWidth} (hwidth : r.width = width)
    {blocks : List (BlockNumber × Bytes)} (hblocks : ∀ block ∈ blocks, Readable width base block.2)
    {listed : List Record} (hroom : r.HasRoom listed)
    (hlisted : seen ++ revokesIn width blocks ⊆ listed) :
    ∃ r', r.scan blocks = (.ok (), r') ∧ r'.Merged base (seen ++ revokesIn width blocks) ∧
      Paid r r' := by
  induction blocks generalizing r seen with
  | nil =>
      refine ⟨r, rfl, ?_, Paid.refl r⟩
      rw [revokesIn, List.flatMap_nil, List.append_nil]
      exact hr
  | cons block blocks ih =>
      have hrest := fun other hother => hblocks other (List.mem_cons_of_mem block hother)
      rcases hblocks block List.mem_cons_self with hother | ⟨p, hparse, hwindow⟩
      · -- The block is only counted.
        rw [revokesIn_cons_of_not_revoke hother] at hlisted ⊢
        let r₁ := { r with stats.otherBlocks := r.stats.otherBlocks + 1 }
        have hr₁ : r₁.Merged base seen := ⟨hr.isMap, hr.window, hr.mem, hr.latest⟩
        rcases ih hr₁ hwidth hrest hroom hlisted with ⟨r₂, heq₂, hr₂, hpaid₂⟩
        refine ⟨r₂, ?_, hr₂, hpaid₂.inUse_eq, hpaid₂.limit_eq⟩
        simp only [Recovery.scan, hother, Bool.false_eq_true, if_false]
        exact heq₂
      · have hrevoke := RevokeBlock.isRevokeBlock_of_parse hparse
        rw [revokesIn_cons_of_parse hparse, ← List.append_assoc] at hlisted ⊢
        rcases hr.scanBlock (hwidth ▸ hparse) hwindow hroom (List.append_subset.mp hlisted).1
          block.1 with ⟨entries, r₁, heq₁, hr₁, hpaid₁⟩
        rcases stats_scanBlock heq₁ with ⟨_, _, _, hwidth₁, _⟩
        rcases ih hr₁ (hwidth₁.trans hwidth) hrest (hpaid₁.hasRoom hroom) hlisted with
          ⟨r₂, heq₂, hr₂, hpaid₂⟩
        exact ⟨r₂, by simp only [Recovery.scan, hrevoke, if_true, heq₁, heq₂], hr₂,
          hpaid₁.trans hpaid₂⟩

/-- An image is stale if its block was revoked by its transaction or a later one. -/
theorem Merged.isStale_iff (hr : r.Merged base seen) (b : BlockNumber) {tid : Tid}
    (hwindow : tid.stepsFrom base < Tid.halfCircle) :
    r.isStale b tid = true ↔ ∃ rec ∈ seen, rec.block = b ∧ rec.sequence.isAtOrAfter tid = true := by
  unfold isStale
  constructor
  · intro hstale
    cases hfound : r.table.lookup b with
    | none => simp only [hfound, Bool.false_eq_true] at hstale
    | some found =>
        simp only [hfound] at hstale
        rcases hr.mem hfound with ⟨hmem, hb⟩
        exact ⟨found, hmem, hb, hstale⟩
  · rintro ⟨rec, hmem, rfl, hlater⟩
    -- The one in the table came no earlier.
    rcases hr.latest rec hmem with ⟨found, hfound, hle⟩
    have hthere := hr.window found (hr.mem hfound).1
    rw [Tid.isAtOrAfter_iff (hr.window rec hmem) hwindow] at hlater
    simp only [hfound]
    exact (Tid.isAtOrAfter_iff hthere hwindow).mpr (Nat.le_trans hlater hle)

/-- A recovery that holds the latest of the revokes read so far, alone on a pool without a
    limit. -/
structure Gathered (r : Recovery) (base : Tid) (seen : List Record) : Prop
    extends Merged r base seen where
  -- The pool has paid for nothing else.
  paid : r.pool.inUse ≤ r.table.len
  -- The pool has no limit of its own.
  unlimited : r.pool.limit = none

-- A recovery that starts with nothing in use has gathered nothing.
theorem gathered_create {hashSize : Nat} {width : RecordWidth} {policy : RetryPolicy} {pool : Pool}
    (hcreate : create hashSize width policy pool = .ok r) (huse : pool.inUse = 0)
    (hlimit : pool.limit = none) (base : Tid) : r.Gathered base [] ∧ r.width = width := by
  rcases merged_create hcreate base with ⟨hmerged, hpool, _, hwidth, _⟩
  refine ⟨⟨hmerged, ?_, hpool ▸ hlimit⟩, hwidth⟩
  rw [hpool, huse]
  exact Nat.zero_le _

/-- A scan of descriptors that can be read gathers the revokes in all of them, if a word can
    count these. -/
theorem Gathered.scan (hr : r.Gathered base seen) {width : RecordWidth} (hwidth : r.width = width)
    {blocks : List (BlockNumber × Bytes)}
    (hblocks : ∀ block ∈ blocks, ∃ p, RevokeBlock.parse block.2 width = .ok p ∧
      p.sequence.stepsFrom base < Tid.halfCircle)
    (hlen : seen.length + (revokesIn width blocks).length < UInt64.size) :
    ∃ r', r.scan blocks = (.ok (), r') ∧ r'.Gathered base (seen ++ revokesIn width blocks) := by
  have hpaid := hr.paid
  have hroom : r.HasRoom (seen ++ revokesIn width blocks) := by
    have hdedup := (List.dedup_sublist ((seen ++ revokesIn width blocks).map
      Record.block)).length_le
    rw [List.length_map, List.length_append] at hdedup
    rw [HasRoom, Pool.capacity, hr.unlimited, Option.getD_none]
    omega
  rcases hr.toMerged.scan hwidth (fun block hblock => Or.inr (hblocks block hblock)) hroom
    (List.Subset.refl _) with ⟨r', hscan, hr', hpaid'⟩
  have huse := hpaid'.inUse_eq
  exact ⟨r', hscan, hr', by omega, hpaid'.limit_eq.trans hr.unlimited⟩

end Recovery

end BlockJournal
