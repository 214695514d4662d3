import BlockJournal.Proofs.Commit.Steps

/-!
# What a Commit Leaves Alone

A commit empties the table, gives its records back to the pool and counts. It
works in descriptors that it adds to the store, so whatever the log does with
them, every buffer that somebody held before the commit is as it was. In
particular its marks are, although the table they speak of is empty now.

## Main definitions

* `Counters.committed`: What a commit counts.
* `Mount.Framed`, `Draft.Framed`: A mount, and a commit under way, that has only
  added to the store.

## Theorems

* `Step.framed`, `Steps.framed`: Every step leaves the older buffers alone.
* `commit_core`: What a commit does to the journal, its pool and its buffers.
* `counters_commit`, `table_commit`: What it does to the counters and to the table.
-/

namespace BlockJournal

/-- The counters after a commit. -/
def Counters.committed (c : Counters) (stats : WriteStats) : Counters :=
  { c with
    recordsWritten := c.recordsWritten + UInt64.ofNat stats.written
    recordsDropped := c.recordsDropped + UInt64.ofNat stats.dropped
    descriptorsWritten := c.descriptorsWritten + UInt64.ofNat stats.descriptors }

namespace Mount

variable {σ : Type} {core : Mount Unit}

/-- A mount that has changed from what it was only by adding to its store. -/
structure Framed (m : Mount σ) (core : Mount Unit) : Prop where
  -- Nothing but the store has changed.
  core_eq : m.core = { core with store := m.store }
  -- The store has only grown.
  extended : core.store.Extends m.store

theorem Framed.of_core {m m' : Mount σ} (hm : m.Framed core) (h : m'.core = m.core) :
    m'.Framed core := by
  have hstore : m'.store = m.store := store_of_core h
  refine ⟨?_, ?_⟩
  · rw [h, hstore]
    exact hm.core_eq
  · rw [hstore]
    exact hm.extended

-- A buffer that was added may change.
theorem Framed.of_modify {m m' : Mount σ} (hm : m.Framed core) {id : BufferId}
    (hid : core.store.buffers.size ≤ id) {f : Buffer → Buffer}
    (h : m'.core = { m.core with store := m.store.modify id f })
    (hhashed : ∀ b, (f b).flags.hashed = b.flags.hashed)
    (hmark : ∀ b, (f b).flags.revoke = b.flags.revoke) : m'.Framed core := by
  have hstore : m'.store = m.store.modify id f := congrArg Mount.store h
  refine ⟨?_, ?_⟩
  · rw [h, hm.core_eq, hstore]
  · rw [hstore]
    exact hm.extended.modify hid hhashed hmark

-- A descriptor is a buffer that was added.
theorem Framed.request [LogService σ] {m m' : Mount σ} (hm : m.Framed core) {id : BufferId}
    (h : m.request = (some id, m')) : core.store.buffers.size ≤ id ∧ m'.Framed core := by
  rcases core_request_some h with ⟨hid, block, size, hcore⟩
  have hstore : m'.store = (m.store.detached block size).2 := congrArg Mount.store hcore
  refine ⟨hid ▸ hm.extended.size_le, ?_, ?_⟩
  · rw [hcore, hstore, hm.core_eq]
  · rw [hstore]
    exact hm.extended.trans (Store.extends_detached _ _ _)

theorem Framed.file [LogService σ] {m : Mount σ} (hm : m.Framed core) {id : BufferId}
    (hid : core.store.buffers.size ≤ id) (tid : Tid) : (m.file tid id).Framed core := by
  rcases core_file m tid id with h | ⟨len, h⟩
  · exact hm.of_core h
  · exact hm.of_modify hid h (fun _ => rfl) (fun _ => rfl)

end Mount

namespace Draft

variable {σ : Type} [LogService σ] {tid : Tid} {width : RecordWidth}

/-- A commit under way has only added to the store, and the descriptor being filled
    is one of the buffers added. -/
structure Framed (core : Mount Unit) (d : Draft σ) : Prop where
  -- The mount has only more buffers.
  mount : d.mount.Framed core
  -- The descriptor being filled is new.
  fresh : ∀ desc, d.current = some desc → core.store.buffers.size ≤ desc.buffer

theorem Step.framed {core : Mount Unit} {d d' : Draft σ} {rs : List Record}
    (h : Step tid width d rs d') (hd : d.Framed core) : d'.Framed core := by
  have hnone : ∀ desc, (none : Option OpenDescriptor) = some desc →
      core.store.buffers.size ≤ desc.buffer := by
    intro desc h
    exact absurd h (by simp only [reduceCtorEq, not_false_eq_true])
  cases h with
  | count => exact ⟨hd.mount, hd.fresh⟩
  | drop r _ => exact ⟨hd.mount, hd.fresh⟩
  | refused m e hcur hrequest =>
      have hcore : (m.emit e).core = d.mount.core :=
        (Mount.core_emit m e).trans (Mount.core_request_none hrequest)
      exact ⟨hd.mount.of_core hcore, hcur ▸ hnone⟩
  | unopened id m data cause e hcur hrequest hopen =>
      rcases hd.mount.request hrequest with ⟨hid, hm⟩
      exact ⟨hm.of_modify hid (Mount.core_modifyBuffer m id (·.setData data)) (fun _ => rfl)
        (fun _ => rfl), hcur ▸ hnone⟩
  | opened id m m' data hcur hrequest hopen hfile =>
      rcases hd.mount.request hrequest with ⟨hid, hm⟩
      have hstored : (m.modifyBuffer id (·.setData data)).Framed core :=
        hm.of_modify hid (Mount.core_modifyBuffer m id _) (fun _ => rfl) (fun _ => rfl)
      refine ⟨hfile ▸ hstored.file hid tid, fun desc hdesc => ?_⟩
      rw [← Option.some.inj hdesc]
      exact hid
  | unfit desc r cause e hcur hroom hadd => exact ⟨hd.mount.of_core rfl, hd.fresh⟩
  | added desc desc' r hcur hroom hadd =>
      refine ⟨hd.mount, fun open' hopen => ?_⟩
      rw [← Option.some.inj hopen, OpenDescriptor.buffer_add hadd]
      exact hd.fresh desc hcur
  | lost desc e hcur habort => exact ⟨hd.mount.of_core rfl, hnone⟩
  | unclosed desc data cause e hcur habort hclose =>
      exact ⟨hd.mount.of_modify (hd.fresh desc hcur)
        (Mount.core_modifyBuffer d.mount desc.buffer (·.setData data)) (fun _ => rfl)
        (fun _ => rfl), hnone⟩
  | submitted desc data e hcur habort hclose =>
      have hclosed : (d.mount.modifyBuffer desc.buffer
          (fun b => ((b.setData data).setLogWrite true).setDirty false)).Framed core :=
        hd.mount.of_modify (hd.fresh desc hcur) (Mount.core_modifyBuffer d.mount desc.buffer _)
          (fun _ => rfl) (fun _ => rfl)
      exact ⟨hclosed.of_core (Mount.core_submit _ _), hnone⟩

theorem Steps.framed {core : Mount Unit} {d d' : Draft σ} {rs : List Record}
    (h : Steps tid width d rs d') (hd : d.Framed core) : d'.Framed core := by
  induction h with
  | refl => exact hd
  | snoc _ hstep ih => exact hstep.framed ih

end Draft

namespace Mount

variable {σ : Type} [LogService σ]

-- A commit is a commit under way that has only added to the store, and was counted.
theorem commit_framed (m : Mount σ) (tid : Tid) :
    ∃ (d : Draft σ) (e : Event), m.commit tid = (d.stats, (d.mount.countCommit d.stats).emit e) ∧
      d.mount.Framed m.drainTable.2.core := by
  rcases Draft.steps_commit m tid with ⟨d, e, hsteps, _, heq⟩
  have hstart : Draft.Framed m.drainTable.2.core (⟨m.drainTable.2, {}, none⟩ : Draft σ) :=
    ⟨⟨rfl, Store.Extends.refl _⟩, fun desc h => absurd h
      (by simp only [reduceCtorEq, not_false_eq_true])⟩
  exact ⟨d, e, heq, (hsteps.framed hstart).mount⟩

/-- A commit empties the table, gives back what its records cost, counts, and adds
    to the store. Nothing else changes but the log and the reports. -/
theorem commit_core (m : Mount σ) (tid : Tid) :
    ∃ store counters, m.store.Extends store ∧
      (m.commit tid).2.core =
        { m.core with
          journal.table := m.journal.table.emptied
          journal.counters := counters
          pool := m.pool.release m.journal.table.len
          store := store } := by
  rcases m.commit_framed tid with ⟨d, e, heq, hframed⟩
  refine ⟨d.mount.store, (d.mount.countCommit d.stats).journal.counters, hframed.extended, ?_⟩
  have hcount : ((d.mount.countCommit d.stats).emit e).core =
      { d.mount.core with journal.counters := (d.mount.countCommit d.stats).journal.counters } := rfl
  rw [heq, hcount, hframed.core_eq]
  rfl

/-- A commit adds its outcome to the counters. -/
theorem counters_commit (m : Mount σ) (tid : Tid) :
    (m.commit tid).2.journal.counters = m.journal.counters.committed (m.commit tid).1 := by
  rcases m.commit_framed tid with ⟨d, e, heq, hframed⟩
  have hcounters : d.mount.journal.counters = m.journal.counters :=
    congrArg (fun m => m.journal.counters) hframed.core_eq
  rw [heq, ← hcounters]
  rfl

/-- A commit leaves the table empty. -/
theorem table_commit (m : Mount σ) (tid : Tid) :
    (m.commit tid).2.journal.table = m.journal.table.emptied := by
  rcases m.commit_core tid with ⟨store, counters, _, hcore⟩
  have htable := congrArg (fun m => m.journal.table) hcore
  exact htable

end Mount

end BlockJournal
