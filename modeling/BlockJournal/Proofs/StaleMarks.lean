import BlockJournal.Proofs.Calls
import Mathlib.Data.List.Infix

/-!
# Marks That Outlive Their Records

What a commit leaves behind in the cache.

A revoke marks the buffer that the cache has of its block, and the mark stands for
a record. A commit takes the record away and does not look at the buffer, so the
mark outlives the record: the buffer is `Mount.Stale`. The next revoke of the block
takes the mark for a revoke that is still standing. A debug build stops there, and
a release build goes on without a record. Either way the block is not revoked in
the new transaction, although its revoke was in order.

This is the only way for a revoke to go wrong. `stale_after_iff` says of every call
how marks become stale and how they stop being so, and `keepsRevoke_iff` says that
a revoke does what it should unless it runs into such a mark.

## Main definitions

* `Mount.BlockUse`: Calls that revoke a block alone or with its buffer in the cache.
* `Mount.KeepsRevoke`: A revoke that succeeds leaves a record, and the test for a
  second revoke fails only if there is one.
* `Mount.Marked`, `Mount.Stale`: A mark in the cache, and one without a record.
* `Mount.Unmarks`: Calls that take a mark away.

## Theorems

* `keepsRevoke_iff_not_stale`: A revoke fails to keep its promise at stale marks.
* `stale_after_iff`: Commits make marks stale, and nothing else does.
* `keepsRevoke_iff`: When a revoke keeps its promise, by what was called before.
-/

namespace BlockJournal

namespace Mount

variable {σ : Type} [LogService σ] {config : Config} {cache : BlockSize}

/-- A call on blocks and buffers of the cache: a revoke comes without a buffer or with
    the one the cache has, and a cancel with one that the cache made. -/
def BlockUse (m : Mount σ) : Call → Prop
  | .getOrCreate _ | .read .. | .evict _ | .commit _ => True
  | .detach .. => False
  | .revoke _ block given => ∀ id, given = some id → m.store.mapped? block = some id
  | .cancel _ id => (m.store.get id).size = m.store.blockSize.bytes

/-- A revoke that succeeds leaves a record of its block, and the test for a second
    revoke fails only if there is a record. -/
def KeepsRevoke (m : Mount σ) (tid : Tid) (block : BlockNumber) (given : Option BufferId) : Prop :=
  ((m.revoke tid block given).1 = .ok () →
    (m.revoke tid block given).2.journal.table.Holds block) ∧
  (m.SignalsTwice block given → m.journal.table.Holds block)

/-- The buffer the cache has of a block is marked as revoked. -/
def Marked (m : Mount σ) (block : BlockNumber) : Prop :=
  ∃ id, m.store.mapped? block = some id ∧ m.store.mark id = .revoked

/-- The buffer the cache has of a block is marked as revoked, and the block has no
    record. -/
def Stale (m : Mount σ) (block : BlockNumber) : Prop :=
  m.Marked block ∧ ¬ m.journal.table.Holds block

/-- A call that takes the mark of a block out of the cache: the block is dropped, or
    cancelled through a buffer that is not known to be clean. -/
def Unmarks (m : Mount σ) (block : BlockNumber) : Call → Prop
  | .evict b => b = block
  | .cancel _ id => (m.store.get id).block = block ∧ m.store.mark id ≠ .clean
  | .getOrCreate _ | .read .. | .detach .. | .revoke .. | .commit _ => False

/-- A revoke keeps its promise unless it gets as far as a stale mark. -/
theorem keepsRevoke_iff_not_stale {m : Mount σ} (hs : m.Sound config cache)
    (hcache : cache.bytes = config.blockSize.toNat) (tid : Tid) {block : BlockNumber}
    {given : Option BufferId} (hgiven : ∀ id, given = some id → m.store.mapped? block = some id) :
    m.KeepsRevoke tid block given ↔
      ((m.prepare block given).1 = .ok () → ¬ m.Stale block) := by
  have htwice := signalsTwice_iff (hs.blockSize_eq hcache) hgiven
  constructor
  · rintro ⟨_, htest⟩ hready ⟨hmarked, hnone⟩
    exact hnone (htest (htwice.mpr ⟨hready, hmarked⟩))
  · intro hfresh
    have htest : m.SignalsTwice block given → m.journal.table.Holds block := by
      intro h
      by_contra hnone
      exact hfresh h.1 ⟨(htwice.mp h).2, hnone⟩
    refine ⟨?_, htest⟩
    have hcase := revoke_case hs.isMap tid block given
    generalize (m.revoke tid block given).1 = result at hcase ⊢
    generalize (m.revoke tid block given).2 = after at hcase ⊢
    cases hcase with
    | refused stop _ pool htwice hbuild huse hlimit hcore =>
        exact fun h => absurd h (by simp only [reduceCtorEq, not_false_eq_true])
    | skipped _ htwice hbuild hmarks =>
        -- The revoke did nothing, so the record has to be there already.
        intro _
        have htable : after.journal.table = m.journal.table :=
          congrArg (fun m => m.journal.table) hmarks.core_eq
        rw [htable]
        exact htest htwice
    | recorded _ table pool counters hunmarked hfits htable hmarks hcore =>
        intro _
        have htable' : after.journal.table = table := congrArg (fun m => m.journal.table) hcore
        rw [htable', htable.holds_iff]
        exact Or.inl rfl

omit [LogService σ] in
-- What a block's mark and record depend on.
theorem marked_congr {m m' : Mount σ} {block : BlockNumber}
    (hmapped : m'.store.mapped? block = m.store.mapped? block)
    (hmark : ∀ id, m.store.mapped? block = some id → m'.store.mark id = m.store.mark id) :
    m'.Marked block ↔ m.Marked block := by
  unfold Marked
  rw [hmapped]
  constructor
  · rintro ⟨id, hb, h⟩
    exact ⟨id, hb, (hmark id hb).symm.trans h⟩
  · rintro ⟨id, hb, h⟩
    exact ⟨id, hb, (hmark id hb).trans h⟩

theorem marked_after_brings {m : Mount σ} (hs : m.store.Coherent) {c : Call}
    (hc : c.bringsBuffers = true) (block : BlockNumber) :
    (m.after c).Marked block ↔ m.Marked block := by
  rcases m.grows_after hc with ⟨_, hgrows, _⟩
  constructor
  · rintro ⟨id, hb, hmark⟩
    rcases hgrows.new hb with hold | hnew
    · rw [hgrows.mark_eq (hs.lt_size hold)] at hmark
      exact ⟨id, hold, hmark⟩
    · rw [hgrows.unknown id hnew] at hmark
      exact absurd hmark (by simp only [reduceCtorEq, not_false_eq_true])
  · rintro ⟨id, hb, hmark⟩
    exact ⟨id, hgrows.kept hb, (hgrows.mark_eq (hs.lt_size hb)).trans hmark⟩

-- No revoke makes a mark stale, and none helps a mark that is.
theorem stale_after_revoke {m : Mount σ} (hs : m.Sound config cache)
    (hcache : cache.bytes = config.blockSize.toNat) (tid : Tid) {block : BlockNumber}
    {given : Option BufferId} (hgiven : ∀ id, given = some id → m.store.mapped? block = some id)
    (b : BlockNumber) :
    (m.after (.revoke tid block given)).Stale b ↔ m.Stale b := by
  have hhold := buffer?_hold (hs.blockSize_eq hcache) hgiven
  have hcase := revoke_case hs.isMap tid block given
  change (m.revoke tid block given).2.Stale b ↔ m.Stale b
  generalize (m.revoke tid block given).1 = result at hcase
  generalize (m.revoke tid block given).2 = after at hcase ⊢
  unfold Stale
  cases hcase with
  | refused stop _ pool htwice hbuild huse hlimit hcore =>
      have htable : after.journal.table = m.journal.table :=
        congrArg (fun m => m.journal.table) hcore
      have hstore : after.store = m.store := congrArg (fun m => m.store) hcore
      have hmarked : after.Marked b ↔ m.Marked b :=
        marked_congr (by rw [hstore]) (fun id _ => by rw [hstore])
      rw [htable, hmarked]
  | skipped _ htwice hbuild hmarks =>
      have htable : after.journal.table = m.journal.table :=
        congrArg (fun m => m.journal.table) hmarks.core_eq
      rw [htable, marked_congr (hmarks.store.mapped?_eq b)
        (fun id hb => hmarks.store.mark_eq id (hs.coherent.lt_size hb))]
  | recorded _ table pool counters hunmarked hfits htable hmarks hcore =>
      have htable' : after.journal.table = table := congrArg (fun m => m.journal.table) hcore
      rw [htable', htable.holds_iff]
      by_cases hb : b = block
      · -- The block was not marked before, and has a record now.
        refine iff_of_false (fun h => h.2 (Or.inl hb)) ?_
        rintro ⟨⟨id, hmapped, hmark⟩, _⟩
        rw [hb] at hmapped
        rw [isRevoked, hhold, hmapped] at hunmarked
        simp only [beq_eq_false_iff_ne] at hunmarked
        exact hunmarked hmark
      · rw [marked_congr (hmarks.mapped?_eq b) fun id hmapped => ?_]
        · simp only [hb, false_or]
        · rw [hmarks.mark_eq id (hs.coherent.lt_size hmapped), hhold, if_neg]
          exact fun h => hb (hs.coherent.eq_of_mapped hmapped h)

-- A cancel that searches takes the mark of its block out of the cache, and leaves
-- everything else alone.
theorem stale_after_cancel {m : Mount σ} (hs : m.Sound config cache) (tid : Tid) {id : BufferId}
    (hbytes : (m.store.get id).size = m.store.blockSize.bytes) (b : BlockNumber) :
    (m.after (.cancel tid id)).Stale b ↔ m.Stale b ∧ ¬ m.Unmarks b (.cancel tid id) := by
  have hcase := cancel_case hs.isMap tid id
  change (m.cancel tid id).2.Stale b ↔ _
  generalize (m.cancel tid id).1 = result at hcase
  generalize (m.cancel tid id).2 = after at hcase ⊢
  unfold Stale Unmarks
  cases hcase with
  | fast _ _ counters hclean hresult hmarks hcore =>
      have htable : after.journal.table = m.journal.table :=
        congrArg (fun m => m.journal.table) hcore
      rw [htable, marked_congr (hmarks.mapped?_eq b)
        (fun other hb => hmarks.mark_eq other (hs.coherent.lt_size hb))]
      exact ⟨fun h => ⟨h, fun hend => hend.2 hclean⟩, fun h => h.1⟩
  | searched _ table pool counters hneeded htable hmarks hcore =>
      have htable' : after.journal.table = table := congrArg (fun m => m.journal.table) hcore
      rw [htable', htable.holds_iff]
      by_cases hb : (m.store.get id).block = b
      · -- The buffer in the cache is the one cancelled, or it is told.
        refine iff_of_false ?_ (fun h => h.2 ⟨hb, hneeded⟩)
        rintro ⟨⟨other, hmapped, hmark⟩, _⟩
        rw [hmarks.mapped?_eq] at hmapped
        rw [hmarks.mark_eq other (hs.coherent.lt_size hmapped)] at hmark
        by_cases ho : id = other
        · rw [if_pos ho] at hmark
          exact absurd hmark (by simp only [reduceCtorEq, not_false_eq_true])
        · rw [← hb] at hmapped
          rw [if_neg ho, Store.cachedAlias_of_ne hs.coherent hbytes hmapped (Ne.symm ho),
            if_pos rfl] at hmark
          cases hold : m.store.mark other <;> rw [hold] at hmark <;>
            exact absurd hmark (by simp only [RevokeState.withoutRevoke, reduceCtorEq,
              not_false_eq_true])
      · rw [marked_congr (hmarks.mapped?_eq b) fun other hmapped => ?_]
        · simp only [hb, false_and, not_false_eq_true, and_true, ne_eq, Ne.symm hb, true_and]
        · -- Another block has other buffers.
          rw [hmarks.mark_eq other (hs.coherent.lt_size hmapped), if_neg, if_neg]
          · intro halias
            exact hb (hs.coherent.eq_of_mapped (Store.mapped_of_cachedAlias halias) hmapped)
          · rintro rfl
            exact hb (hs.coherent.block_eq hmapped)

/-- Commits make marks stale, and nothing else does. -/
theorem stale_after_iff {m : Mount σ} (hs : m.Sound config cache)
    (hcache : cache.bytes = config.blockSize.toNat) {c : Call} (huse : m.BlockUse c)
    (b : BlockNumber) :
    (m.after c).Stale b ↔
      ((∃ tid, c = .commit tid) ∧ m.Marked b) ∨ (m.Stale b ∧ ¬ m.Unmarks b c) := by
  have hbrings : c.bringsBuffers = true → ((m.after c).Stale b ↔ m.Stale b) := by
    intro hc
    rw [Stale, Stale, m.table_brings hc, marked_after_brings hs.coherent hc]
  cases c with
  | getOrCreate block =>
      rw [hbrings rfl]
      simp only [reduceCtorEq, exists_false, false_and, false_or, Unmarks, not_false_eq_true,
        and_true]
  | read device block contended =>
      rw [hbrings rfl]
      simp only [reduceCtorEq, exists_false, false_and, false_or, Unmarks, not_false_eq_true,
        and_true]
  | detach block size => exact absurd huse (by simp only [BlockUse, not_false_eq_true])
  | evict block =>
      simp only [reduceCtorEq, exists_false, false_and, false_or, Unmarks]
      unfold Stale
      rw [table_evict]
      by_cases hb : b = block
      · refine iff_of_false ?_ (fun h => h.2 hb.symm)
        rintro ⟨⟨id, hmapped, _⟩, _⟩
        rw [store_evict, Store.mapped?_evict, if_pos hb] at hmapped
        exact absurd hmapped (by simp only [reduceCtorEq, not_false_eq_true])
      · have hmarked : (m.after (.evict block)).Marked b ↔ m.Marked b :=
          marked_congr (by rw [store_evict, Store.mapped?_evict, if_neg hb])
            (fun id _ => by rw [store_evict, Store.mark_evict])
        rw [hmarked]
        simp only [Ne.symm hb, not_false_eq_true, and_true]
  | revoke tid block given =>
      rw [stale_after_revoke hs hcache tid huse]
      simp only [reduceCtorEq, exists_false, false_and, false_or, Unmarks, not_false_eq_true,
        and_true]
  | cancel tid id =>
      rw [stale_after_cancel hs tid huse]
      simp only [reduceCtorEq, exists_false, false_and, false_or]
  | commit tid =>
      rcases m.commit_core tid with ⟨store, counters, hext, hcore⟩
      have hstore : (m.after (.commit tid)).store = store :=
        congrArg (fun m => m.store) hcore
      have hmarked : (m.after (.commit tid)).Marked b ↔ m.Marked b :=
        marked_congr (by rw [hstore, hext.mapped?_eq])
          (fun id hb => by rw [hstore, hext.mark_eq (hs.coherent.lt_size hb)])
      have hnone : ¬ (m.after (.commit tid)).journal.table.Holds b := by
        rw [after, table_commit]
        exact Table.not_holds_emptied _ b
      unfold Stale
      rw [hmarked]
      simp only [hnone, not_false_eq_true, and_true, Call.commit.injEq, exists_eq', true_and,
        Unmarks]
      exact ⟨Or.inl, fun h => h.elim id fun h => h.1⟩

/-- After any run, a revoke keeps its promise unless it gets to its test and the buffer
    the cache has of the block was marked already when some commit was made, and the
    block was neither dropped since nor cancelled through a buffer that was not known
    to be clean. -/
theorem keepsRevoke_iff {build : Build} {store : Store} {log : σ} {m : Mount σ}
    (hstore : Store.create config.blockSize.toNat = .ok store)
    (hcreate : create build config store log = .ok m) {calls : List Call}
    (hcalls : Obeys BlockUse m calls) (tid : Tid) {block : BlockNumber} {given : Option BufferId}
    (hgiven : ∀ id, given = some id → (m.run calls).store.mapped? block = some id) :
    (m.run calls).KeepsRevoke tid block given ↔
      (((m.run calls).prepare block given).1 = .ok () →
        ¬ ∃ before last since, calls = before ++ .commit last :: since ∧
          (m.run before).Marked block ∧
          Obeys (fun m c => ¬ m.Unmarks block c) (m.run (before ++ [.commit last])) since) := by
  rcases sound_create hstore hcreate with ⟨hs, hrecords, hstore', hbytes, hindex, _, _⟩
  have hnot : ¬ m.Stale block := by
    rintro ⟨⟨id, hmapped, _⟩, _⟩
    rw [hstore', Store.mapped?, hindex] at hmapped
    exact absurd hmapped (by simp only [List.lookup_nil, reduceCtorEq, not_false_eq_true])
  have hsince := @run_since σ _ BlockUse (·.Sound config store.blockSize) (·.Stale block)
    (fun m c => (∃ last, c = .commit last) ∧ m.Marked block) (·.Unmarks block)
    (fun _ c h _ => h.after c) (fun _ _ h huse => stale_after_iff h hbytes huse block)
    m hs hnot calls hcalls
  rw [keepsRevoke_iff_not_stale (hs.run calls) hbytes tid hgiven, hsince]
  refine imp_congr_right fun _ => not_congr ?_
  constructor
  · rintro ⟨before, c, since, hsplit, ⟨⟨last, rfl⟩, hmarked⟩, hrest⟩
    exact ⟨before, last, since, hsplit, hmarked, hrest⟩
  · rintro ⟨before, last, since, hsplit, hmarked, hrest⟩
    exact ⟨before, .commit last, since, hsplit, ⟨⟨last, rfl⟩, hmarked⟩, hrest⟩

/-- A block that the cache does not have is revoked and committed. -/
def uncachedCalls : List Call := [.revoke ⟨1⟩ ⟨5⟩ none, .commit ⟨1⟩]

-- Without a buffer in the cache the block can be revoked again.
theorem keepsRevoke_of_uncached :
    Obeys BlockUse (smallMount .debug) uncachedCalls ∧
      ((smallMount .debug).run uncachedCalls).KeepsRevoke ⟨2⟩ ⟨5⟩ none := by
  have hgiven : ∀ {m : Mount RingLog} id, (none : Option BufferId) = some id →
      m.store.mapped? ⟨5⟩ = some id :=
    fun id h => absurd h (by simp only [reduceCtorEq, not_false_eq_true])
  have hcalls : Obeys BlockUse (smallMount .debug) uncachedCalls := ⟨hgiven, trivial, trivial⟩
  have hnever : ∀ before ∈ uncachedCalls.inits,
      ((smallMount .debug).run before).store.mapped? ⟨5⟩ = none := by decide +kernel
  refine ⟨hcalls, (keepsRevoke_iff create_smallStore (create_smallMount .debug) hcalls ⟨2⟩
    hgiven).mpr fun _ => ?_⟩
  rintro ⟨before, last, since, hsplit, ⟨id, hmapped, _⟩, _⟩
  rw [hnever before ((List.mem_inits _ _).mpr ⟨_, hsplit.symm⟩)] at hmapped
  exact absurd hmapped (by simp only [reduceCtorEq, not_false_eq_true])

/-- A block that is in the cache is revoked and committed. -/
def markedCalls : List Call := [.getOrCreate ⟨5⟩, .revoke ⟨1⟩ ⟨5⟩ none, .commit ⟨1⟩]

-- Revoking the block again in the next transaction goes wrong in either build: one
-- stops, although there is no record, and the other goes on without one.
theorem revoke_after_commit_breaks :
    (Obeys BlockUse (smallMount .debug) markedCalls ∧
      (((smallMount .debug).run markedCalls).revoke ⟨2⟩ ⟨5⟩ none).1 =
        .error (.violated .revokedTwice) ∧
      ¬ ((smallMount .debug).run markedCalls).journal.table.Holds ⟨5⟩ ∧
      ¬ ((smallMount .debug).run markedCalls).KeepsRevoke ⟨2⟩ ⟨5⟩ none) ∧
    (Obeys BlockUse (smallMount .release) markedCalls ∧
      (((smallMount .release).run markedCalls).revoke ⟨2⟩ ⟨5⟩ none).1 = .ok () ∧
      ¬ (((smallMount .release).run markedCalls).revoke ⟨2⟩ ⟨5⟩ none).2.journal.table.Holds ⟨5⟩ ∧
      ¬ ((smallMount .release).run markedCalls).KeepsRevoke ⟨2⟩ ⟨5⟩ none) := by
  have hcalls : ∀ build, Obeys BlockUse (smallMount build) markedCalls := by
    intro build
    refine ⟨trivial, ?_, trivial, trivial⟩
    exact fun id h => absurd h (by simp only [reduceCtorEq, not_false_eq_true])
  have hnone : ¬ ((smallMount .debug).run markedCalls).journal.table.Holds ⟨5⟩ := by
    decide +kernel
  have htwice : ((smallMount .debug).run markedCalls).SignalsTwice ⟨5⟩ none :=
    ⟨by decide +kernel, by decide +kernel⟩
  have hok : (((smallMount .release).run markedCalls).revoke ⟨2⟩ ⟨5⟩ none).1 = .ok () := by
    decide +kernel
  have hlost : ¬ (((smallMount .release).run markedCalls).revoke ⟨2⟩ ⟨5⟩
      none).2.journal.table.Holds ⟨5⟩ := by decide +kernel
  refine ⟨⟨hcalls _, by decide +kernel, hnone, fun h => hnone (h.2 htwice)⟩, hcalls _, hok, hlost,
    fun h => hlost (h.1 hok)⟩

end Mount

end BlockJournal
