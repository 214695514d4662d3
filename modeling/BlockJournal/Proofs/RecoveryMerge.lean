import BlockJournal.Proofs.DescriptorCodec
import BlockJournal.Proofs.Gathering

/-!
# What a Recovery Knows after a Scan

A scan of a log comes to the same in whatever order the blocks are read.

`Recovery.Merged` describes a table by what was read, and says nothing about the order
in which it was. So a recovery that has scanned the blocks of a log knows what a
reader of the whole log would say: the latest transaction that revoked a block, the
images that are stale, how many blocks are revoked at all, and what there was to
count. `Recovery.Summary` collects this, and `scan_perm` says that every scan of the
blocks, in any order, ends with it.

The log may hold blocks that are no revoke descriptors. The descriptors among its
blocks have to be readable, and their transactions have to lie in a window, which may
go across the wrap of the ids.

## Main definitions

* `LatestIn`: The latest transaction that revoked a block.
* `Recovery.decideAll`: Decisions one after the other.
* `Recovery.Summary`: What there is to know about a log.

## Theorems

* `Merged.revokedIn_iff`: The transaction a recovery holds for a block.
* `decideAll_eq`: What decisions return and count.
* `scan_perm`: What a recovery knows after a scan in any order.
-/

namespace BlockJournal

-- An id is known by how far it has come.
theorem Tid.eq_of_stepsFrom_eq {a b base : Tid} (h : a.stepsFrom base = b.stepsFrom base) :
    a = b := by
  have ha := a.val.toNat_lt
  have hb := b.val.toNat_lt
  have hbase := base.val.toNat_lt
  have hval : a.val.toNat = b.val.toNat := by
    simp only [stepsFrom, UInt32.toNat_sub] at h
    omega
  cases a
  cases b
  exact congrArg Tid.mk (UInt32.toNat_inj.mp hval)

/-- A transaction is the latest of those that revoked a block in a log. -/
structure LatestIn (width : RecordWidth) (blocks : List (BlockNumber × Bytes)) (b : BlockNumber)
    (tid : Tid) : Prop where
  -- It revoked the block.
  listed : ⟨b, tid⟩ ∈ revokesIn width blocks
  -- No transaction that revoked the block came after it.
  latest : ∀ rec ∈ revokesIn width blocks, rec.block = b → tid.isAtOrAfter rec.sequence = true

-- The order of the blocks makes no difference to what is in them.
theorem revokesIn_perm {width : RecordWidth} {order blocks : List (BlockNumber × Bytes)}
    (h : order.Perm blocks) : (revokesIn width order).Perm (revokesIn width blocks) :=
  h.flatMap_right _

namespace Recovery

variable {r : Recovery} {base : Tid} {seen : List Record}

-- What was read matters, and not when or how often.
theorem Merged.congr (hr : r.Merged base seen) {seen' : List Record}
    (h : ∀ rec, rec ∈ seen ↔ rec ∈ seen') : r.Merged base seen' :=
  ⟨hr.isMap, fun rec hrec => hr.window rec ((h rec).mpr hrec),
    fun hfound => ⟨(h _).mp (hr.mem hfound).1, (hr.mem hfound).2⟩,
    fun rec hrec => hr.latest rec ((h rec).mpr hrec)⟩

/-- A recovery holds for a block the latest transaction that revoked it. -/
theorem Merged.revokedIn_iff (hr : r.Merged base seen) {b : BlockNumber} {tid : Tid} :
    r.revokedIn b = some tid ↔ ⟨b, tid⟩ ∈ seen ∧
      ∀ rec ∈ seen, rec.block = b → tid.isAtOrAfter rec.sequence = true := by
  unfold revokedIn
  constructor
  · intro h
    rcases Option.map_eq_some_iff.mp h with ⟨found, hfound, rfl⟩
    rcases hr.mem hfound with ⟨hmem, rfl⟩
    refine ⟨hmem, fun rec hrec hb => ?_⟩
    rcases hr.latest rec hrec with ⟨found', hfound', hle⟩
    rw [hb, hfound, Option.some.injEq] at hfound'
    subst hfound'
    exact (Tid.isAtOrAfter_iff (hr.window _ hmem) (hr.window _ hrec)).mpr hle
  · rintro ⟨hmem, hlatest⟩
    rcases hr.latest _ hmem with ⟨found, hfound, hle⟩
    rcases hr.mem hfound with ⟨hmem', hb⟩
    -- Neither of the two came after the other.
    have hge := (Tid.isAtOrAfter_iff (hr.window _ hmem) (hr.window _ hmem')).mp
      (hlatest found hmem' hb)
    have hsame : tid = found.sequence := Tid.eq_of_stepsFrom_eq (Nat.le_antisymm hle hge)
    rw [hfound, Option.map_some, hsame]

-- A recovery holds nothing for a block that was not revoked.
theorem Merged.revokedIn_eq_none_iff (hr : r.Merged base seen) {b : BlockNumber} :
    r.revokedIn b = none ↔ b ∉ seen.map Record.block := by
  rw [← hr.mem_blocks_iff, ← Table.holds_iff_mem hr.isMap, Table.holds_iff_ne_none, not_not,
    revokedIn, Option.map_eq_none_iff]

/-- Decide what to do with images, one after the other. -/
def decideAll (r : Recovery) : List (BlockNumber × Tid) → List Decision × Recovery
  | [] => ([], r)
  | image :: rest =>
      let (decision, r) := r.decide image.1 image.2
      let (decisions, r) := decideAll r rest
      (decision :: decisions, r)

-- A decision looks at the table and counts.
theorem decide_eq (r : Recovery) (b : BlockNumber) (tid : Tid) :
    (r.decide b tid).1 = (if r.isStale b tid then .skip else .replay) ∧
      (r.decide b tid).2.table = r.table ∧
      (r.decide b tid).2.stats.skipped = r.stats.skipped + (if r.isStale b tid then 1 else 0) ∧
      (r.decide b tid).2.stats.replayed =
        r.stats.replayed + (if r.isStale b tid then 0 else 1) := by
  unfold decide
  cases hstale : r.isStale b tid with
  | false => exact ⟨rfl, rfl, (UInt64.add_zero _).symm, rfl⟩
  | true => exact ⟨rfl, rfl, rfl, (UInt64.add_zero _).symm⟩

/-- Decisions go by the test for stale images, and each is counted under what it came to. -/
theorem decideAll_eq (r : Recovery) (images : List (BlockNumber × Tid)) :
    (r.decideAll images).1 =
        images.map (fun image => if r.isStale image.1 image.2 then .skip else .replay) ∧
      (r.decideAll images).2.stats.skipped =
        r.stats.skipped +
          UInt64.ofNat (images.countP (fun image => r.isStale image.1 image.2)) ∧
      (r.decideAll images).2.stats.replayed =
        r.stats.replayed +
          UInt64.ofNat (images.countP (fun image => !r.isStale image.1 image.2)) := by
  induction images generalizing r with
  | nil => exact ⟨rfl, (UInt64.add_zero _).symm, (UInt64.add_zero _).symm⟩
  | cons image rest ih =>
      rcases decide_eq r image.1 image.2 with ⟨hdecision, htable, hskipped, hreplayed⟩
      rcases hdecide : r.decide image.1 image.2 with ⟨decision, r₁⟩
      rw [hdecide] at hdecision htable hskipped hreplayed
      have hstale : ∀ b tid, r₁.isStale b tid = r.isStale b tid := by
        intro b tid
        rw [isStale, isStale, htable]
      rcases ih r₁ with ⟨hdecisions, hskipped₁, hreplayed₁⟩
      simp only [hstale] at hdecisions hskipped₁ hreplayed₁
      simp only [decideAll, hdecide, hdecisions, hskipped₁, hreplayed₁, List.map_cons,
        List.countP_cons, UInt64.ofNat_add]
      refine ⟨congrArg (· :: _) hdecision, ?_, ?_⟩
      · rw [hskipped]
        cases r.isStale image.1 image.2 with
        | false => simp only [Bool.false_eq_true, if_false]; grind
        | true => simp only [if_true]; grind
      · rw [hreplayed]
        cases r.isStale image.1 image.2 with
        | false => simp only [Bool.false_eq_true, if_false, Bool.not_false, if_true]; grind
        | true => simp only [if_true, Bool.not_true, Bool.false_eq_true, if_false]; grind

/-- What there is to know about a log whose transactions lie in the window that starts at
    `base`. -/
structure Summary (r : Recovery) (width : RecordWidth) (base : Tid)
    (blocks : List (BlockNumber × Bytes)) : Prop where
  -- The transaction that is held for a block is the latest that revoked it.
  revokedIn_iff : ∀ b tid, r.revokedIn b = some tid ↔ LatestIn width blocks b tid
  -- None is held for the other blocks.
  revokedIn_eq_none_iff : ∀ b, r.revokedIn b = none ↔ ∀ tid, ⟨b, tid⟩ ∉ revokesIn width blocks
  -- An image is stale if a descriptor of its transaction or a later one lists its block.
  isStale_iff : ∀ b tid, tid.stepsFrom base < Tid.halfCircle →
    (r.isStale b tid = true ↔ ∃ block ∈ blocks, ∃ p, RevokeBlock.parse block.2 width = .ok p ∧
      b ∈ p.blocks ∧ p.sequence.isAtOrAfter tid = true)
  -- There is one record for each block that is listed.
  len_eq : r.table.len = ((revokesIn width blocks).map Record.block).dedup.length
  -- Every block of the log was counted.
  blocks_eq : r.stats.revokeBlocks + r.stats.otherBlocks = UInt64.ofNat blocks.length
  -- Every entry was counted.
  records_eq : r.stats.revokeRecords = UInt64.ofNat (revokesIn width blocks).length
  -- Every decision goes by the test for stale images.
  decisions_eq : ∀ images, (r.decideAll images).1 =
    images.map (fun image => if r.isStale image.1 image.2 then .skip else .replay)
  -- Every decision is counted.
  decided_eq : ∀ images,
    (r.decideAll images).2.stats.replayed + (r.decideAll images).2.stats.skipped =
      r.stats.replayed + r.stats.skipped + UInt64.ofNat images.length

/-- A scan of the blocks of a log, in any order, goes well as long as the pool has room for
    the blocks that are listed, and the recovery knows what there is to know about the
    log. -/
theorem scan_perm {hashSize : Nat} {width : RecordWidth} {policy : RetryPolicy} {pool : Pool}
    (hcreate : create hashSize width policy pool = .ok r) {base : Tid}
    {blocks : List (BlockNumber × Bytes)}
    (hblocks : ∀ block ∈ blocks, Readable width base block.2)
    (hroom : pool.inUse + ((revokesIn width blocks).map Record.block).dedup.length ≤
      pool.capacity)
    {order : List (BlockNumber × Bytes)} (horder : order.Perm blocks) :
    ∃ r', r.scan order = (.ok (), r') ∧ r'.Summary width base blocks := by
  rcases merged_create hcreate base with ⟨hmerged, hpool, hlen, hwidth, hstats⟩
  have hrevokes : (revokesIn width order).Perm (revokesIn width blocks) := revokesIn_perm horder
  have hroom : r.HasRoom (revokesIn width blocks) := by
    rw [HasRoom, hpool, hlen]
    exact hroom
  rcases hmerged.scan hwidth (fun block hblock => hblocks block (horder.mem_iff.mp hblock)) hroom
    hrevokes.subset with ⟨r', hscan, hr', _⟩
  have hr' : r'.Merged base (revokesIn width blocks) := hr'.congr fun rec => hrevokes.mem_iff
  rcases stats_scan hscan with ⟨hblocks', hrecords', _⟩
  rw [hstats] at hblocks' hrecords'
  rw [hwidth] at hrecords'
  refine ⟨r', hscan, ?_, ?_, ?_, hr'.length_eq, ?_, ?_, ?_, ?_⟩
  · intro b tid
    rw [hr'.revokedIn_iff]
    exact ⟨fun h => ⟨h.1, h.2⟩, fun h => ⟨h.listed, h.latest⟩⟩
  · intro b
    rw [hr'.revokedIn_eq_none_iff, List.mem_map]
    constructor
    · intro h tid htid
      exact h ⟨_, htid, rfl⟩
    · rintro h ⟨rec, hrec, rfl⟩
      exact h rec.sequence hrec
  · intro b tid hwindow
    rw [hr'.isStale_iff b hwindow]
    constructor
    · rintro ⟨rec, hrec, rfl, hafter⟩
      rcases mem_revokesIn.mp hrec with ⟨block, hblock, p, hparse, hmem, hsequence⟩
      exact ⟨block, hblock, p, hparse, hmem, hsequence ▸ hafter⟩
    · rintro ⟨block, hblock, p, hparse, hmem, hafter⟩
      exact ⟨⟨b, p.sequence⟩, mem_revokesIn.mpr ⟨block, hblock, p, hparse, hmem, rfl⟩, rfl, hafter⟩
  · rw [hblocks', horder.length_eq]
    exact UInt64.zero_add _
  · rw [hrecords', hrevokes.length_eq]
    exact UInt64.zero_add _
  · exact fun images => (decideAll_eq r' images).1
  · intro images
    rcases decideAll_eq r' images with ⟨_, hskipped, hreplayed⟩
    have hlength := List.length_eq_countP_add_countP (fun image => r'.isStale image.1 image.2)
      (l := images)
    simp only [Bool.not_eq_true, Bool.decide_eq_false] at hlength
    rw [hskipped, hreplayed, hlength, UInt64.ofNat_add]
    grind

/-- A log across the wrap of the ids: the last transaction before it lists a block twice, the
    second after it revokes that block again, and a block in between is none of the two. -/
def wrappedLog : List (BlockNumber × Bytes) :=
  [(⟨20⟩, (RevokeBlock.mk ⟨4294967295⟩ [⟨5⟩, ⟨7⟩, ⟨7⟩]).image .narrow), (⟨21⟩, Bytes.zeros 16),
    (⟨22⟩, (RevokeBlock.mk ⟨1⟩ [⟨7⟩]).image .narrow)]

-- A scan of this log from its end, with a pool that has room for its two blocks.
theorem scan_perm_wrappedLog :
    ∃ r r', create 2 .narrow .fail (Pool.new (some 2)) = .ok r ∧
      r.scan wrappedLog.reverse = (.ok (), r') ∧ r'.Summary .narrow ⟨4294967295⟩ wrappedLog ∧
      r'.revokedIn ⟨5⟩ = some ⟨4294967295⟩ ∧ r'.revokedIn ⟨7⟩ = some ⟨1⟩ ∧ r'.table.len = 2 ∧
      r'.isStale ⟨7⟩ ⟨0⟩ = true := by
  have hblocks : ∀ block ∈ wrappedLog, Readable .narrow ⟨4294967295⟩ block.2 := by
    refine List.forall_mem_cons.mpr ⟨Or.inr ⟨⟨⟨4294967295⟩, [⟨5⟩, ⟨7⟩, ⟨7⟩]⟩, ?_, ?_⟩,
      List.forall_mem_cons.mpr ⟨Or.inl ?_, List.forall_mem_singleton.mpr
        (Or.inr ⟨⟨⟨1⟩, [⟨7⟩]⟩, ?_, ?_⟩)⟩⟩
    all_goals decide +kernel
  have hcreate : ∃ r, create 2 .narrow .fail (Pool.new (some 2)) = .ok r := ⟨_, rfl⟩
  rcases hcreate with ⟨r, hcreate⟩
  rcases scan_perm hcreate hblocks (by decide +kernel) (List.reverse_perm wrappedLog) with
    ⟨r', hscan, hsummary⟩
  refine ⟨r, r', hcreate, hscan, hsummary, ?_, ?_, ?_, ?_⟩
  · exact (hsummary.revokedIn_iff _ _).mpr ⟨by decide +kernel, by decide +kernel⟩
  · exact (hsummary.revokedIn_iff _ _).mpr ⟨by decide +kernel, by decide +kernel⟩
  · rw [hsummary.len_eq]
    decide +kernel
  · refine (hsummary.isStale_iff _ _ (by decide)).mpr
      ⟨_, List.mem_of_getLast? rfl, ⟨⟨1⟩, [⟨7⟩]⟩, ?_, by decide, by decide⟩
    decide +kernel

end Recovery

end BlockJournal
