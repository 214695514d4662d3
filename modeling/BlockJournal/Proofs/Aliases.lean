import BlockJournal.Proofs.Commit.Contents
import Mathlib.Data.List.Infix

/-!
# Cancels Through Any Handle

What the fast path of a cancel misses when a block has several buffers.

A block may have a buffer in the cache, others that were dropped from the cache
while somebody held on to them, and others that never were in the cache. A revoke
marks one of them at most, and a cancel asks the one it was handed. A buffer that
was cancelled once is known to be clean from then on, whatever happens to its block
through other buffers or through none. When the block is revoked without this buffer
being marked, the buffer is `Mount.Overlooked`: it is known to be clean, and its
block has a record. A cancel through it takes the fast path and leaves the record
where it is, and the next commit writes it to the log.

This is the only way for a cancel to miss a record. `overlooked_after_iff` says of
every call how buffers come to be overlooked and how they stop being so, and
`cancelsFor_iff` says after which runs a cancel does what it should.

## Main definitions

* `Mount.HandleUse`: Calls that revoke a block alone or with a buffer of the block.
* `Mount.Overlooked`: A buffer known to be clean whose block has a record.
* `Mount.Overlooks`, `Mount.Notices`: Calls that bring this about, and that end it.
* `Mount.CancelsFor`: A cancel after which the block is not written any more.

## Theorems

* `holds_cancel_iff`: A cancel leaves a record exactly if its buffer was overlooked.
* `overlooked_after_iff`: How buffers are overlooked, and how they are not.
* `holds_of_holds_after`: Only a revoke of a block gives it a record.
* `submitted_run`: What commits write while a block is not revoked.
* `cancelsFor_iff`: When a cancel does what it should, by what was called before.
-/

namespace BlockJournal

/-- The call is a revoke of a block. -/
def Call.Revokes (b : BlockNumber) : Call → Prop
  | revoke _ block _ => block = b
  | getOrCreate _ | read .. | evict _ | detach .. | cancel .. | commit _ => False

namespace Mount

variable {σ : Type} [LogService σ] {config : Config} {cache : BlockSize}

/-- A call that keeps to the buffers of a block: a revoke comes without a buffer or with
    any buffer of its block. -/
def HandleUse (m : Mount σ) : Call → Prop
  | .revoke _ block given => ∀ id, given = some id → (m.store.get id).block = block
  | .getOrCreate _ | .read .. | .evict _ | .detach .. | .cancel .. | .commit _ => True

/-- A buffer is known to be clean, but its block has a record. -/
def Overlooked (m : Mount σ) (h : BufferId) : Prop :=
  m.store.mark h = .clean ∧ m.journal.table.Holds (m.store.get h).block

/-- A call that makes a buffer overlooked: its block is revoked while the buffer is known
    to be clean, and the buffer is not the one that is marked. -/
def Overlooks (m : Mount σ) (h : BufferId) : Call → Prop
  | .revoke tid block given =>
      block = (m.store.get h).block ∧ m.Records tid block given ∧ m.store.mark h = .clean ∧
        (m.hold block given).buffer? ≠ some h
  | .getOrCreate _ | .read .. | .evict _ | .detach .. | .cancel .. | .commit _ => False

/-- A call after which a buffer is not overlooked: a commit, a revoke that marks it, or
    a cancel of its block through a buffer that is not known to be clean. -/
def Notices (m : Mount σ) (h : BufferId) : Call → Prop
  | .commit _ => True
  | .revoke tid block given => m.Records tid block given ∧ (m.hold block given).buffer? = some h
  | .cancel _ id => (m.store.get id).block = (m.store.get h).block ∧ m.store.mark id ≠ .clean
  | .getOrCreate _ | .read .. | .evict _ | .detach .. => False

omit [LogService σ] in
/-- A cancel leaves a record of its block exactly if its buffer was overlooked. -/
theorem holds_cancel_iff {m : Mount σ} (hm : m.journal.table.IsMap) (tid : Tid) (h : BufferId) :
    (m.cancel tid h).2.journal.table.Holds (m.store.get h).block ↔ m.Overlooked h := by
  rw [holds_after_cancel hm, Overlooked, and_comm]
  simp only [true_and, ne_eq, not_not]

-- A revoke changes marks of buffers at most, as far as the cache is concerned.
theorem remarked_revoke {m : Mount σ} (hm : m.journal.table.IsMap) (tid : Tid)
    (block : BlockNumber) (given : Option BufferId) :
    ∃ f, m.store.Remarked f (m.revoke tid block given).2.store := by
  have hcase := revoke_case hm tid block given
  generalize (m.revoke tid block given).1 = result at hcase
  generalize (m.revoke tid block given).2 = after at hcase ⊢
  cases hcase with
  | refused stop _ pool htwice hbuild huse hlimit hcore =>
      have hstore : after.store = m.store := congrArg (fun m => m.store) hcore
      refine ⟨fun _ state => state, ?_⟩
      rw [hstore]
      exact .refl _
  | skipped _ htwice hbuild hmarks => exact ⟨_, hmarks.store⟩
  | recorded _ table pool counters hunmarked hfits htable hmarks hcore => exact ⟨_, hmarks⟩

omit [LogService σ] in
-- So does a cancel.
theorem remarked_cancel {m : Mount σ} (hm : m.journal.table.IsMap) (tid : Tid) (id : BufferId) :
    ∃ f, m.store.Remarked f (m.cancel tid id).2.store := by
  have hcase := cancel_case hm tid id
  generalize (m.cancel tid id).1 = result at hcase
  generalize (m.cancel tid id).2 = after at hcase ⊢
  cases hcase with
  | fast _ _ counters hclean hresult hmarks hcore => exact ⟨_, hmarks⟩
  | searched _ table pool counters hneeded htable hmarks hcore => exact ⟨_, hmarks⟩

-- What was not there before a call knows nothing after it.
theorem mark_after_of_size_le {m : Mount σ} (hs : m.Sound config cache) {h : BufferId}
    (hh : m.store.buffers.size ≤ h) (c : Call) : (m.after c).store.mark h = .unknown := by
  have hremarked : ∀ {f : BufferId → RevokeState → RevokeState} {s : Store},
      m.store.Remarked f s → s.mark h = .unknown := by
    intro f s hmarks
    exact (Store.aside_of_size_le (by rw [hmarks.size_eq]; exact hh)).2
  cases c with
  | getOrCreate block => exact (m.grows_after (c := .getOrCreate block) rfl).2.1.unknown h hh
  | read device block contended =>
      exact (m.grows_after (c := .read device block contended) rfl).2.1.unknown h hh
  | detach block size => exact (m.grows_after (c := .detach block size) rfl).2.1.unknown h hh
  | evict block =>
      rw [store_evict, Store.mark_evict]
      exact (Store.aside_of_size_le hh).2
  | revoke tid block given =>
      rcases remarked_revoke hs.isMap tid block given with ⟨f, hmarks⟩
      exact hremarked hmarks
  | cancel tid id =>
      rcases remarked_cancel hs.isMap tid id with ⟨f, hmarks⟩
      exact hremarked hmarks
  | commit tid =>
      rcases m.commit_core tid with ⟨store, counters, hext, hcore⟩
      have hstore : (m.after (.commit tid)).store = store :=
        congrArg (fun m => m.store) hcore
      rw [hstore]
      exact (hext.aside h hh).2

-- Revokes make a buffer overlooked that they do not mark, and only these.
theorem overlooked_after_revoke {m : Mount σ} (hs : m.Sound config cache) (tid : Tid)
    (block : BlockNumber) (given : Option BufferId) {h : BufferId}
    (hh : h < m.store.buffers.size) :
    (m.after (.revoke tid block given)).Overlooked h ↔
      m.Overlooks h (.revoke tid block given) ∨
        (m.Overlooked h ∧ ¬ m.Notices h (.revoke tid block given)) := by
  have hcase := revoke_case hs.isMap tid block given
  change (m.revoke tid block given).2.Overlooked h ↔ _
  simp only [Overlooks, Notices, Records]
  generalize (m.revoke tid block given).1 = result at hcase ⊢
  generalize (m.revoke tid block given).2 = after at hcase ⊢
  unfold Overlooked
  cases hcase with
  | refused stop _ pool htwice hbuild huse' hlimit hcore =>
      have htable : after.journal.table = m.journal.table :=
        congrArg (fun m => m.journal.table) hcore
      have hstore : after.store = m.store := congrArg (fun m => m.store) hcore
      rw [htable, hstore]
      simp only [reduceCtorEq, false_and, and_false, false_or, not_false_eq_true, and_true]
  | skipped _ htwice hbuild hmarks =>
      have htable : after.journal.table = m.journal.table :=
        congrArg (fun m => m.journal.table) hmarks.core_eq
      rw [htable, hmarks.store.mark_eq h hh, hmarks.store.block_eq]
      simp only [htwice, not_true_eq_false, false_and, and_false, false_or, not_false_eq_true,
        and_true]
  | recorded _ table pool counters hunmarked hfits htable hmarks hcore =>
      have htable' : after.journal.table = table := congrArg (fun m => m.journal.table) hcore
      have hnot := not_signalsTwice hunmarked
      rw [htable', htable.holds_iff, hmarks.mark_eq h hh, hmarks.block_eq]
      by_cases hmarked : (m.hold block given).buffer? = some h
      · -- The buffer is marked, so it is not known to be clean any more.
        simp only [hmarked, if_true, reduceCtorEq, false_and, ne_eq, not_true_eq_false, and_false,
          hnot, not_false_eq_true, and_self, or_self]
      · simp only [hmarked, if_false, ne_eq, not_false_eq_true, hnot, and_self, and_true, true_and,
          and_false]
        by_cases hb : block = (m.store.get h).block
        · simp only [hb, true_or, and_true, true_and]
          tauto
        · simp only [hb, Ne.symm hb, false_or, false_and]

-- A cancel that searches takes the record of its block away, and no cancel makes a
-- buffer overlooked.
theorem overlooked_after_cancel {m : Mount σ} (hs : m.Sound config cache) (tid : Tid)
    (id : BufferId) {h : BufferId} (hh : h < m.store.buffers.size) :
    (m.after (.cancel tid id)).Overlooked h ↔
      m.Overlooked h ∧ ¬ m.Notices h (.cancel tid id) := by
  have hcase := cancel_case hs.isMap tid id
  change (m.cancel tid id).2.Overlooked h ↔ _
  unfold Overlooked Notices
  generalize (m.cancel tid id).1 = result at hcase
  generalize (m.cancel tid id).2 = after at hcase ⊢
  cases hcase with
  | fast _ _ counters hclean hresult hmarks hcore =>
      have htable : after.journal.table = m.journal.table :=
        congrArg (fun m => m.journal.table) hcore
      rw [htable, hmarks.mark_eq h hh, hmarks.block_eq]
      exact ⟨fun hb => ⟨hb, fun hend => hend.2 hclean⟩, fun hb => hb.1⟩
  | searched _ table pool counters hneeded htable hmarks hcore =>
      have htable' : after.journal.table = table := congrArg (fun m => m.journal.table) hcore
      rw [htable', htable.holds_iff, hmarks.mark_eq h hh, hmarks.block_eq]
      by_cases hb : (m.store.get h).block = (m.store.get id).block
      · refine iff_of_false (fun hc => hc.2.1 hb) (fun hc => hc.2 ⟨hb.symm, hneeded⟩)
      · -- The buffers of another block are left alone.
        have hself : id ≠ h := by
          rintro rfl
          exact hb rfl
        have halias : m.store.cachedAlias id ≠ some h := by
          intro hc
          exact hb (hs.coherent.block_eq (Store.mapped_of_cachedAlias hc))
        simp only [hself, halias, if_false, ne_eq, hb, not_false_eq_true, true_and, Ne.symm hb,
          false_and, and_true]

/-- Only a revoke of its block makes a buffer overlooked, and it stays so until the
    record is gone or the buffer is marked. -/
theorem overlooked_after_iff {m : Mount σ} (hs : m.Sound config cache) (c : Call)
    (h : BufferId) :
    (m.after c).Overlooked h ↔ m.Overlooks h c ∨ (m.Overlooked h ∧ ¬ m.Notices h c) := by
  rcases Nat.lt_or_ge h m.store.buffers.size with hh | hh
  · have hbrings : c.bringsBuffers = true → ((m.after c).Overlooked h ↔ m.Overlooked h) := by
      intro hc
      rcases m.grows_after hc with ⟨_, hgrows, _⟩
      rw [Overlooked, Overlooked, m.table_brings hc, hgrows.mark_eq hh, hgrows.get_eq h hh]
    cases c with
    | getOrCreate block =>
        rw [hbrings rfl]
        simp only [Overlooks, Notices, false_or, not_false_eq_true, and_true]
    | read device block contended =>
        rw [hbrings rfl]
        simp only [Overlooks, Notices, false_or, not_false_eq_true, and_true]
    | detach block size =>
        rw [hbrings rfl]
        simp only [Overlooks, Notices, false_or, not_false_eq_true, and_true]
    | evict block =>
        have hblock : ((m.store.evict block).2.get h).block = (m.store.get h).block := by
          rcases Store.get_evict m.store block h with hget | ⟨_, hget⟩
          · rw [hget]
          · rw [hget]
            rfl
        rw [Overlooked, table_evict, store_evict, Store.mark_evict, hblock]
        simp only [Overlooks, Notices, false_or, not_false_eq_true, and_true, Overlooked]
    | revoke tid block given => exact overlooked_after_revoke hs tid block given hh
    | cancel tid id =>
        rw [overlooked_after_cancel hs tid id hh]
        simp only [Overlooks, false_or]
    | commit tid =>
        simp only [Overlooked, after, table_commit, Table.not_holds_emptied, not_true_eq_false,
          and_false, Overlooks, Notices, or_self]
  · -- A buffer that does not exist yet is not known to be clean.
    have hmark : m.store.mark h = .unknown := (Store.aside_of_size_le hh).2
    have hafter := mark_after_of_size_le hs hh c
    refine iff_of_false (fun hc => ?_) ?_
    · rw [hc.1] at hafter
      exact absurd hafter (by simp only [reduceCtorEq, not_false_eq_true])
    · rintro (hc | hc)
      · cases c with
        | revoke tid block given =>
            have hclean := hc.2.2.1
            rw [hmark] at hclean
            exact absurd hclean (by simp only [reduceCtorEq, not_false_eq_true])
        | getOrCreate | read | evict | detach | cancel | commit => exact hc
      · have hclean := hc.1.1
        rw [hmark] at hclean
        exact absurd hclean (by simp only [reduceCtorEq, not_false_eq_true])

/-- Only a revoke of a block gives it a record. -/
theorem holds_of_holds_after {m : Mount σ} (hs : m.Sound config cache) {c : Call}
    {b : BlockNumber} (hc : ¬ c.Revokes b) (hb : (m.after c).journal.table.Holds b) :
    m.journal.table.Holds b := by
  rcases (holds_after hs.isMap c b).mp hb with henters | ⟨hheld, _⟩
  · cases c with
    | revoke tid block given => exact absurd henters.1 hc
    | getOrCreate | read | evict | detach | cancel | commit => exact absurd henters not_false
  · exact hheld

/-- While a block without a record is not revoked, no descriptor is written with an
    entry for it. -/
theorem submitted_run {m : Mount (Witnessed σ)} (hs : m.Sound config cache) {b : BlockNumber}
    (hb : ¬ m.journal.table.Holds b) {calls : List Call} (hcalls : ∀ c ∈ calls, ¬ c.Revokes b) :
    m.log.Adds (m.run calls).log config.recordWidth (· ≠ b) := by
  induction calls generalizing m with
  | nil => exact .of_eq rfl
  | cons c calls ih =>
      have hc := hcalls c List.mem_cons_self
      have hfirst : m.log.Adds (m.after c).log config.recordWidth (· ≠ b) := by
        by_cases hcommit : ∃ tid, c = .commit tid
        · rcases hcommit with ⟨tid, rfl⟩
          have hadds := m.submitted_commit tid
          rw [hs.config_eq] at hadds
          refine hadds.mono fun block hblock hne => hb ?_
          rw [Table.holds_iff_mem hs.isMap, ← hne]
          exact hblock
        · exact .of_eq (m.submitted_after fun tid h => hcommit ⟨tid, h⟩)
      exact hfirst.trans (ih (hs.after c) (fun h => hb (holds_of_holds_after hs hc h))
        fun c' hc' => hcalls c' (List.mem_cons_of_mem c hc'))

/-- A cancel does what it should: the block of its buffer has no record any more, and no
    descriptor is written with an entry for it until it is revoked again. -/
def CancelsFor (m : Mount σ) (tid : Tid) (h : BufferId) : Prop :=
  let b := (m.store.get h).block
  let m' := (m.cancel tid h).2
  ¬ m'.journal.table.Holds b ∧
    ∀ calls, (∀ c ∈ calls, ¬ c.Revokes b) →
      ∀ buffer ∈ (m'.witnessed.run calls).log.submitted,
        ¬ buffer.Lists m.journal.config.recordWidth b

theorem cancelsFor_iff_not_overlooked {m : Mount σ} (hs : m.Sound config cache)
    (tid : Tid) (h : BufferId) : m.CancelsFor tid h ↔ ¬ m.Overlooked h := by
  rw [CancelsFor, holds_cancel_iff hs.isMap, and_iff_left_iff_imp]
  intro hclean calls hcalls buffer hbuffer hlists
  rw [hs.config_eq] at hlists
  -- Nothing was written before, so all that was written has no entry for the block.
  rcases submitted_run ((hs.after_cancel tid h).exchange (⟨·, []⟩))
    (by rwa [← holds_cancel_iff hs.isMap] at hclean) hcalls with ⟨new, hnew, hothers⟩
  rw [witnessed, hnew] at hbuffer
  exact hothers buffer hbuffer _ hlists rfl

/-- After any run, a cancel through any buffer does what it should unless the block of the
    buffer was revoked at a time when the buffer was known to be clean and was not the
    one that was marked, and since then there was no commit, no cancel of the block
    through a buffer that was not known to be clean, and no revoke that marked it. -/
theorem cancelsFor_iff {build : Build} {store : Store} {log : σ} {m : Mount σ}
    (hstore : Store.create config.blockSize.toNat = .ok store)
    (hcreate : create build config store log = .ok m) {calls : List Call}
    (hcalls : Obeys HandleUse m calls) (tid : Tid) (h : BufferId) :
    (m.run calls).CancelsFor tid h ↔
      ¬ ∃ before c since, calls = before ++ c :: since ∧ (m.run before).Overlooks h c ∧
        Obeys (fun m c => ¬ m.Notices h c) (m.run (before ++ [c])) since := by
  rcases sound_create hstore hcreate with ⟨hs, hrecords, _, _, _, _, _⟩
  have hnot : ¬ m.Overlooked h := by
    rintro ⟨_, hheld⟩
    rw [Table.holds_iff_mem hs.isMap, hrecords] at hheld
    exact absurd hheld List.not_mem_nil
  have hsince := @run_since σ _ HandleUse (·.Sound config store.blockSize)
    (·.Overlooked h) (·.Overlooks h) (·.Notices h) (fun _ c h _ => h.after c)
    (fun _ c hs _ => overlooked_after_iff hs c h) m hs hnot calls hcalls
  rw [cancelsFor_iff_not_overlooked (hs.run calls) tid h, hsince]

/-- A block is revoked through its buffer, which is then dropped from the cache. -/
def heldCalls : List Call := [.getOrCreate ⟨5⟩, .revoke ⟨1⟩ ⟨5⟩ (some 0), .evict ⟨5⟩]

-- The buffer was marked when the block was revoked, so a cancel through it finds the
-- record although the cache does not have the buffer any more.
theorem cancelsFor_of_held :
    Obeys HandleUse (smallMount .debug) heldCalls ∧
      ((smallMount .debug).run heldCalls).CancelsFor ⟨1⟩ 0 := by
  have hcalls : Obeys HandleUse (smallMount .debug) heldCalls := by
    refine ⟨trivial, fun id h => ?_, trivial, trivial⟩
    rw [← Option.some.inj h]
    decide +kernel
  have hnever : ∀ before ∈ heldCalls.inits,
      ((smallMount .debug).run before).store.mark 0 ≠ .clean := by decide +kernel
  refine ⟨hcalls, (cancelsFor_iff create_smallStore (create_smallMount .debug) hcalls ⟨1⟩
    0).mpr ?_⟩
  rintro ⟨before, c, since, hsplit, hover, _⟩
  have hclean : ((smallMount .debug).run before).store.mark 0 = .clean := by
    cases c with
    | revoke tid block given => exact hover.2.2.1
    | getOrCreate | read | evict | detach | cancel | commit => exact absurd hover not_false
  exact hnever before ((List.mem_inits _ _).mpr ⟨_, hsplit.symm⟩) hclean

/-- The block is cancelled through its buffer, dropped from the cache, and revoked
    without a buffer. -/
def overlookedCalls : List Call :=
  [.getOrCreate ⟨5⟩, .cancel ⟨1⟩ 0, .evict ⟨5⟩, .revoke ⟨1⟩ ⟨5⟩ none]

-- Somebody who holds on to the buffer cancels the revoke through it, and the revoke
-- stays where it is. The next commit writes it to the log.
theorem cancel_of_overlooked_breaks :
    Obeys HandleUse (smallMount .debug) overlookedCalls ∧
      smallConfig.expensiveChecks = false ∧
      (((smallMount .debug).run overlookedCalls).cancel ⟨1⟩ 0).1 = .ok false ∧
      (((smallMount .debug).run overlookedCalls).cancel ⟨1⟩ 0).2.journal.table.Holds ⟨5⟩ ∧
      ((((smallMount .debug).run overlookedCalls).cancel ⟨1⟩ 0).2.witnessed.run
        [.commit ⟨1⟩]).log.submitted.map
          (fun b => (RevokeBlock.parse b.data .narrow).toOption.map RevokeBlock.blocks) =
        [some [⟨5⟩]] ∧
      ¬ ((smallMount .debug).run overlookedCalls).CancelsFor ⟨1⟩ 0 := by
  have hcalls : Obeys HandleUse (smallMount .debug) overlookedCalls := by
    refine ⟨trivial, trivial, trivial, fun id h => ?_, trivial⟩
    exact absurd h (by simp only [reduceCtorEq, not_false_eq_true])
  have hheld : (((smallMount .debug).run overlookedCalls).cancel ⟨1⟩
      0).2.journal.table.Holds ⟨5⟩ := by decide +kernel
  have hblock : (((smallMount .debug).run overlookedCalls).store.get 0).block = ⟨5⟩ := by
    decide +kernel
  refine ⟨hcalls, rfl, by decide +kernel, hheld, by decide +kernel, fun h => h.1 ?_⟩
  rw [hblock]
  exact hheld

end Mount

end BlockJournal
