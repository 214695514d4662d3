import BlockJournal.Proofs.Calls
import Mathlib.Data.Set.Insert

/-!
# Cached Buffers

The fast path of a cancel, for callers that keep to the buffers of the cache.

A buffer that is known to be clean spares a cancel the search of the table. That
is right as long as every revoke marks the buffer that the next cancel will look
at. Callers see to it by `Mount.CachedUse`: they revoke a block without a buffer or
with the one the cache has for it, cancel through buffers of the cache, and never
revoke a block through a buffer that is marked already. `Mount.CleanKnown` is what
this buys: no block whose buffer in the cache is known to be clean has a record.

With it the fast path cannot be told from the search, and the table is a set of
blocks to which a revoke adds, from which a cancel removes, and which a commit
empties.

## Main definitions

* `Mount.CachedUse`: Calls that keep to the buffers of the cache.
* `Mount.CleanKnown`: Known-clean buffers of the cache have no records.
* `Mount.cancelBySearch`: A cancel that always searches.
* `Mount.blocksAfter`, `Mount.blocksRun`: The table as a set of blocks.

## Theorems

* `cleanKnown_after`: Calls that keep to the cache keep its clean marks right.
* `cancel_eq_search`: The fast path agrees with the search.
* `holds_after_iff`: The table follows the set.
* `cached_run_refines_set`: All of it, for every run.
-/

namespace BlockJournal

namespace Mount

variable {σ : Type} [LogService σ] {config : Config} {cache : BlockSize}

/-- A call that keeps to the buffers of the cache, and does not fail the test for a
    second revoke. -/
def CachedUse (m : Mount σ) : Call → Prop
  | .getOrCreate _ | .read .. | .evict _ | .commit _ => True
  | .detach .. => False
  | .revoke _ block given =>
      (∀ id, given = some id → m.store.mapped? block = some id) ∧ ¬ m.SignalsTwice block given
  | .cancel _ id => ∃ block, m.store.mapped? block = some id

/-- No block whose buffer in the cache is known to be clean has a record. -/
def CleanKnown (m : Mount σ) : Prop :=
  ∀ b id, m.store.mapped? b = some id → m.store.mark id = .clean → ¬ m.journal.table.Holds b

/-- A cancel that searches the table whatever its buffer knows. -/
def cancelBySearch (m : Mount σ) (tid : Tid) (id : BufferId) : Bool × Mount σ :=
  (m.modifyBuffer id Buffer.markClean).takeBack tid (m.store.get id).block

/-- What a call does to a set of blocks: a revoke that succeeds adds its block, a
    cancel removes its own, and a commit empties the set. -/
def blocksAfter (m : Mount σ) (blocks : Set BlockNumber) : Call → Set BlockNumber
  | .revoke tid block given =>
      match (m.revoke tid block given).1 with
      | .ok () => insert block blocks
      | .error _ => blocks
  | .cancel _ id => blocks \ {(m.store.get id).block}
  | .commit _ => ∅
  | .getOrCreate _ | .read .. | .evict _ | .detach .. => blocks

/-- What the calls of a run do to a set of blocks. -/
def blocksRun : Mount σ → Set BlockNumber → List Call → Set BlockNumber
  | _, blocks, [] => blocks
  | m, blocks, c :: calls => blocksRun (m.after c) (m.blocksAfter blocks c) calls

theorem cleanKnown_after_brings {m : Mount σ} (hs : m.store.Coherent) (hm : m.CleanKnown)
    {c : Call} (hc : c.bringsBuffers = true) : (m.after c).CleanKnown := by
  rcases m.grows_after hc with ⟨_, hgrows, _⟩
  intro b id hb hmark
  rw [m.table_brings hc]
  rcases hgrows.new hb with hold | hnew
  · rw [hgrows.mark_eq (hs.lt_size hold)] at hmark
    exact hm b id hold hmark
  · rw [hgrows.unknown id hnew] at hmark
    exact absurd hmark (by simp only [reduceCtorEq, not_false_eq_true])

theorem cleanKnown_after_revoke {m : Mount σ} (hs : m.Sound config cache)
    (hcache : cache.bytes = config.blockSize.toNat) (hm : m.CleanKnown) (tid : Tid)
    {block : BlockNumber} {given : Option BufferId} (huse : m.CachedUse (.revoke tid block given)) :
    (m.after (.revoke tid block given)).CleanKnown := by
  have hcase := revoke_case hs.isMap tid block given
  change (m.revoke tid block given).2.CleanKnown
  generalize (m.revoke tid block given).1 = result at hcase
  generalize (m.revoke tid block given).2 = after at hcase ⊢
  cases hcase with
  | refused stop _ pool htwice hbuild huse' hlimit hcore =>
      have htable : after.journal.table = m.journal.table :=
        congrArg (fun m => m.journal.table) hcore
      have hstore : after.store = m.store := congrArg (fun m => m.store) hcore
      intro b id hb hmark
      rw [htable]
      rw [hstore] at hb hmark
      exact hm b id hb hmark
  | skipped _ htwice hbuild hmarks => exact absurd htwice huse.2
  | recorded _ table pool counters hunmarked hfits htable hmarks hcore =>
      have htable' : after.journal.table = table := congrArg (fun m => m.journal.table) hcore
      intro b id hb hmark
      rw [hmarks.mapped?_eq] at hb
      rw [hmarks.mark_eq id (hs.coherent.lt_size hb),
        buffer?_hold (hs.blockSize_eq hcache) huse.1] at hmark
      -- A buffer that is still clean is not the one that was marked.
      by_cases hmarked : m.store.mapped? block = some id
      · rw [if_pos hmarked] at hmark
        exact absurd hmark (by simp only [reduceCtorEq, not_false_eq_true])
      · rw [if_neg hmarked] at hmark
        rw [htable', htable.holds_iff]
        rintro (rfl | hheld)
        · exact hmarked hb
        · exact hm b id hb hmark hheld

theorem cleanKnown_after_cancel {m : Mount σ} (hs : m.Sound config cache) (hm : m.CleanKnown)
    (tid : Tid) {id : BufferId} (huse : m.CachedUse (.cancel tid id)) :
    (m.after (.cancel tid id)).CleanKnown := by
  have hcase := cancel_case hs.isMap tid id
  change (m.cancel tid id).2.CleanKnown
  generalize (m.cancel tid id).1 = result at hcase
  generalize (m.cancel tid id).2 = after at hcase ⊢
  rcases huse with ⟨block, hblock⟩
  cases hcase with
  | fast _ _ counters hclean hresult hmarks hcore =>
      have htable : after.journal.table = m.journal.table :=
        congrArg (fun m => m.journal.table) hcore
      intro b other hb hmark
      rw [hmarks.mapped?_eq] at hb
      rw [hmarks.mark_eq other (hs.coherent.lt_size hb)] at hmark
      rw [htable]
      exact hm b other hb hmark
  | searched _ table pool counters hneeded htable hmarks hcore =>
      have htable' : after.journal.table = table := congrArg (fun m => m.journal.table) hcore
      intro b other hb hmark
      rw [hmarks.mapped?_eq] at hb
      rw [hmarks.mark_eq other (hs.coherent.lt_size hb),
        Store.cachedAlias_of_mapped hs.coherent hblock] at hmark
      rw [htable', htable.holds_iff]
      rintro ⟨hne, hheld⟩
      by_cases ho : id = other
      · rw [← ho] at hb
        exact hne (hs.coherent.block_eq hb).symm
      · simp only [if_neg ho, reduceCtorEq, if_false] at hmark
        exact hm b other hb hmark hheld

/-- Calls that keep to the cache keep its clean marks right. -/
theorem cleanKnown_after {m : Mount σ} (hs : m.Sound config cache)
    (hcache : cache.bytes = config.blockSize.toNat) (hm : m.CleanKnown) {c : Call}
    (huse : m.CachedUse c) : (m.after c).CleanKnown := by
  cases c with
  | getOrCreate block => exact cleanKnown_after_brings hs.coherent hm rfl
  | read device block contended => exact cleanKnown_after_brings hs.coherent hm rfl
  | detach block size => exact cleanKnown_after_brings hs.coherent hm rfl
  | evict block =>
      intro b id hb hmark
      rw [store_evict, Store.mapped?_evict] at hb
      rw [store_evict, Store.mark_evict] at hmark
      rw [table_evict]
      by_cases ho : b = block
      · rw [if_pos ho] at hb
        exact absurd hb (by simp only [reduceCtorEq, not_false_eq_true])
      · rw [if_neg ho] at hb
        exact hm b id hb hmark
  | revoke tid block given => exact cleanKnown_after_revoke hs hcache hm tid huse
  | cancel tid id => exact cleanKnown_after_cancel hs hm tid huse
  | commit tid =>
      intro b id _ _
      rw [after, table_commit]
      exact Table.not_holds_emptied _ b

omit [LogService σ] in
/-- A cancel through a buffer of the cache does what a search does: it says whether
    the block had a record and leaves none. -/
theorem cancel_eq_search {m : Mount σ} (hs : m.Sound config cache) (hm : m.CleanKnown) (tid : Tid)
    {block : BlockNumber} {id : BufferId} (hblock : m.store.mapped? block = some id) :
    (m.cancel tid id).1 = .ok (decide (m.journal.table.Holds block)) ∧
      (m.cancelBySearch tid id).1 = decide (m.journal.table.Holds block) ∧
      ∀ b, (m.cancel tid id).2.journal.revokedIn b =
        (m.cancelBySearch tid id).2.journal.revokedIn b := by
  have hcase := cancel_case hs.isMap tid id
  have hself := hs.coherent.block_eq hblock
  rcases takeBack_core (m := m.modifyBuffer id Buffer.markClean) hs.isMap tid
    (m.store.get id).block with ⟨table', pool', counters', hresult', herased, hcore'⟩
  have hsearch : (m.cancelBySearch tid id).2.journal.table = table' :=
    congrArg (fun m => m.journal.table) hcore'
  rw [hself] at herased hresult'
  simp only [Journal.revokedIn, hsearch]
  refine (and_congr_right' (and_iff_right ?_)).mpr ?_
  · rw [cancelBySearch, hself]
    exact hresult'
  generalize (m.cancel tid id).1 = result at hcase ⊢
  generalize (m.cancel tid id).2 = after at hcase ⊢
  cases hcase with
  | fast _ _ counters hclean hresult hmarks hcore =>
      -- The block has no record, so the search would have found none.
      have hnone := hm block id hblock hclean
      have htable : after.journal.table = m.journal.table :=
        congrArg (fun m => m.journal.table) hcore
      refine ⟨?_, fun b => ?_⟩
      · rcases hresult with rfl | ⟨_, _, hheld⟩
        · rw [decide_eq_false hnone]
        · rw [hself] at hheld
          exact absurd hheld hnone
      · have hsame : m.journal.table.lookup b = table'.lookup b := by
          rw [herased.lookup_eq]
          by_cases hb : b = block
          · rw [if_pos hb, hb]
            by_contra hc
            exact hnone (Table.holds_iff_ne_none.mpr hc)
          · rw [if_neg hb]
            rfl
        rw [htable, hsame]
  | searched _ table pool counters hneeded htable hmarks hcore =>
      have htable' : after.journal.table = table := congrArg (fun m => m.journal.table) hcore
      rw [hself] at htable ⊢
      refine ⟨rfl, fun b => ?_⟩
      rw [htable', htable.lookup_eq, herased.lookup_eq]
      rfl

/-- The table follows the set. -/
theorem holds_after_iff {m : Mount σ} (hs : m.Sound config cache) (hm : m.CleanKnown) {c : Call}
    (huse : m.CachedUse c) {blocks : Set BlockNumber}
    (hblocks : ∀ b, m.journal.table.Holds b ↔ b ∈ blocks) (b : BlockNumber) :
    (m.after c).journal.table.Holds b ↔ b ∈ m.blocksAfter blocks c := by
  rw [holds_after hs.isMap, hblocks]
  cases c with
  | getOrCreate | read | detach | evict =>
      simp only [Enters, Leaves, blocksAfter, false_or, not_false_eq_true, and_true]
  | revoke tid block given =>
      -- The revoke did not fail the test, so it put its record into the table if it went well.
      simp only [Enters, Leaves, Records, huse.2, blocksAfter, not_false_eq_true, and_true]
      rcases (m.revoke tid block given).1 with stop | ⟨⟩
      · simp only [reduceCtorEq, and_false, false_or]
      · simp only [and_true, Set.mem_insert_iff, eq_comm]
  | cancel tid id =>
      rcases huse with ⟨block, hblock⟩
      have hself := hs.coherent.block_eq hblock
      simp only [Enters, Leaves, blocksAfter, false_or, Set.mem_sdiff, Set.mem_singleton_iff]
      refine and_congr_right fun hb => ?_
      -- A clean buffer of the cache: the block was not in the set anyway.
      refine ⟨fun h heq => ?_, fun h hend => h hend.1.symm⟩
      refine h ⟨heq.symm, fun hclean => hm block id hblock hclean ?_⟩
      rw [hblocks, ← hself, ← heq]
      exact hb
  | commit tid =>
      simp only [Enters, Leaves, blocksAfter, not_true_eq_false, and_false, or_self,
        Set.mem_empty_iff_false]

-- Every run that keeps to the buffers of the cache keeps its clean marks right and
-- its table in step with the set.
theorem cleanKnown_run {m : Mount σ} (hs : m.Sound config cache)
    (hcache : cache.bytes = config.blockSize.toNat) (hm : m.CleanKnown)
    {blocks : Set BlockNumber} (hblocks : ∀ b, m.journal.table.Holds b ↔ b ∈ blocks)
    {calls : List Call} (hcalls : Obeys CachedUse m calls) :
    (m.run calls).CleanKnown ∧
      ∀ b, (m.run calls).journal.table.Holds b ↔ b ∈ m.blocksRun blocks calls := by
  induction calls generalizing m blocks with
  | nil => exact ⟨hm, hblocks⟩
  | cons c calls ih =>
      exact ih (hs.after c) (cleanKnown_after hs hcache hm hcalls.1)
        (holds_after_iff hs hm hcalls.1 hblocks) hcalls.2

/-- For callers that keep to the buffers of the cache, known-clean buffers have no
    records, the fast path of a cancel cannot be told from a search, and the table is
    the set of blocks revoked and not cancelled since the last commit. -/
theorem cached_run_refines_set {build : Build} {store : Store} {log : σ} {m : Mount σ}
    (hstore : Store.create config.blockSize.toNat = .ok store)
    (hcreate : create build config store log = .ok m) {calls : List Call}
    (hcalls : Obeys CachedUse m calls) :
    (∀ b id, (m.run calls).store.mapped? b = some id → (m.run calls).store.mark id = .clean →
      ¬ (m.run calls).journal.table.Holds b) ∧
    (∀ b id tid, (m.run calls).store.mapped? b = some id →
      ((m.run calls).cancel tid id).1 = .ok (decide ((m.run calls).journal.table.Holds b)) ∧
      ((m.run calls).cancelBySearch tid id).1 = decide ((m.run calls).journal.table.Holds b) ∧
      ∀ other, ((m.run calls).cancel tid id).2.journal.revokedIn other =
        ((m.run calls).cancelBySearch tid id).2.journal.revokedIn other) ∧
    {b | (m.run calls).journal.table.Holds b} = m.blocksRun ∅ calls := by
  rcases sound_create hstore hcreate with ⟨hs, hrecords, hstore', hbytes, hindex, _, _⟩
  -- Nothing is in the cache and nothing in the table at the start.
  have hclean : m.CleanKnown := by
    intro b id hb _
    rw [hstore', Store.mapped?, hindex] at hb
    exact absurd hb (by simp only [List.lookup_nil, reduceCtorEq, not_false_eq_true])
  have hempty : ∀ b, m.journal.table.Holds b ↔ b ∈ (∅ : Set BlockNumber) := by
    intro b
    rw [Table.holds_iff_mem hs.isMap, hrecords, List.map_nil, Set.mem_empty_iff_false]
    exact iff_of_false List.not_mem_nil not_false
  rcases cleanKnown_run hs hbytes hclean hempty hcalls with ⟨hclean', hblocks⟩
  refine ⟨hclean', fun b id tid hb => ?_, Set.ext hblocks⟩
  exact cancel_eq_search (hs.run calls) hclean' tid hb

omit [LogService σ] in
-- Revoking keeps to the cache as long as the test finds the block unmarked.
theorem cachedUse_revoke_none {m : Mount σ} {tid : Tid} {block : BlockNumber}
    (hunmarked : m.isRevoked (m.hold block none) = false) :
    m.CachedUse (.revoke tid block none) :=
  ⟨fun _ h => absurd h (by simp only [reduceCtorEq, not_false_eq_true]),
    not_signalsTwice hunmarked⟩

omit [LogService σ] in
theorem cachedUse_revoke_some {m : Mount σ} {tid : Tid} {block : BlockNumber} {id : BufferId}
    (hmapped : m.store.mapped? block = some id)
    (hunmarked : m.isRevoked (m.hold block (some id)) = false) :
    m.CachedUse (.revoke tid block (some id)) := by
  refine ⟨fun id' h => ?_, not_signalsTwice hunmarked⟩
  rw [← Option.some.inj h]
  exact hmapped

/-- A block is revoked. Revoking a second one finds no memory; it is evicted, cached again,
    and known to be clean after a cancel. The first revoke is taken back, a third block is
    revoked and committed, and then the first one is revoked again. -/
def cachedCalls : List Call :=
  [.getOrCreate ⟨5⟩, .getOrCreate ⟨6⟩, .revoke ⟨1⟩ ⟨5⟩ none, .revoke ⟨1⟩ ⟨6⟩ none, .evict ⟨6⟩,
    .getOrCreate ⟨6⟩, .cancel ⟨1⟩ 2, .cancel ⟨1⟩ 0, .revoke ⟨1⟩ ⟨7⟩ none, .commit ⟨1⟩,
    .revoke ⟨2⟩ ⟨5⟩ (some 0)]

-- One block is in the set. Of the two in the cache, one has a record to take back and the
-- other is known to have none.
theorem cached_run_refines_set_small :
    Obeys CachedUse (smallMount .debug) cachedCalls ∧
    (smallMount .debug).blocksRun ∅ cachedCalls = {⟨5⟩} ∧
    (((smallMount .debug).run cachedCalls).store.mapped? ⟨6⟩ = some 2 ∧
      ((smallMount .debug).run cachedCalls).store.mark 2 = .clean ∧
      ¬ ((smallMount .debug).run cachedCalls).journal.table.Holds ⟨6⟩) ∧
    ((((smallMount .debug).run cachedCalls).cancel ⟨2⟩ 0).1 = .ok true ∧
      (((smallMount .debug).run cachedCalls).cancel ⟨2⟩ 2).1 = .ok false) ∧
    ∀ id ∈ [0, 2], ∀ other,
      (((smallMount .debug).run cachedCalls).cancel ⟨2⟩ id).2.journal.revokedIn other =
        (((smallMount .debug).run cachedCalls).cancelBySearch ⟨2⟩ id).2.journal.revokedIn
          other := by
  have hcalls : Obeys CachedUse (smallMount .debug) cachedCalls := by
    refine ⟨trivial, trivial, cachedUse_revoke_none ?_, cachedUse_revoke_none ?_, trivial, trivial,
      ⟨⟨6⟩, ?_⟩, ⟨⟨5⟩, ?_⟩, cachedUse_revoke_none ?_, trivial, cachedUse_revoke_some ?_ ?_, trivial⟩
    all_goals decide +kernel
  have hfive : ((smallMount .debug).run cachedCalls).store.mapped? ⟨5⟩ = some 0 := by
    decide +kernel
  have hsix : ((smallMount .debug).run cachedCalls).store.mapped? ⟨6⟩ = some 2 := by
    decide +kernel
  have hclean : ((smallMount .debug).run cachedCalls).store.mark 2 = .clean := by decide +kernel
  have hrecords : ((smallMount .debug).run cachedCalls).journal.table.records = [⟨⟨5⟩, ⟨2⟩⟩] := by
    decide +kernel
  rcases cached_run_refines_set create_smallStore (create_smallMount .debug) hcalls with
    ⟨hnone, hcancel, hset⟩
  have hsound := (sound_create create_smallStore (create_smallMount .debug)).1.run cachedCalls
  have hholds : ∀ b, ((smallMount .debug).run cachedCalls).journal.table.Holds b ↔ b = ⟨5⟩ := by
    intro b
    rw [Table.holds_iff_mem hsound.isMap, hrecords]
    exact List.mem_singleton
  rcases hcancel ⟨5⟩ 0 ⟨2⟩ hfive with ⟨htrue, _, hsame⟩
  rcases hcancel ⟨6⟩ 2 ⟨2⟩ hsix with ⟨hfalse, _, hsame'⟩
  refine ⟨hcalls, ?_, ⟨hsix, hclean, hnone ⟨6⟩ 2 hsix hclean⟩, ⟨htrue.trans ?_, hfalse.trans ?_⟩,
    fun id hid => ?_⟩
  · rw [← hset]
    exact Set.ext hholds
  · rw [decide_eq_true ((hholds ⟨5⟩).mpr rfl)]
  · rw [decide_eq_false (hnone ⟨6⟩ 2 hsix hclean)]
  · rcases List.mem_pair.mp hid with rfl | rfl
    · exact hsame
    · exact hsame'

end Mount

end BlockJournal
