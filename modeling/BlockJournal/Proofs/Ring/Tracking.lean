import BlockJournal.Proofs.Ring.Reuse
import BlockJournal.Proofs.Ring.Waiting

/-!
# Tracking Descriptors

What a log knows of its descriptors is what happened to them.

A log has three things to go by: the list of descriptors that were not waited for, the
mark of a write on their buffers, and the blocks whose writes failed. `Tracked` says
that together they come to what the list of deeds says. What carries it is that the
descriptors on the list have blocks of their own, all of them taken: a block that is
handed out is none of these, so the failure of a write to it can be told from the ones
before, and only blocks that were waited for may be released.

A descriptor is handed over while it is the one that was filed last, so it comes last in
what is due as well.

## Main definitions

* `Chronicle.Tracked`: The log knows what happened to its descriptors.
* `Chronicle.Newest`: The descriptor that was filed last.

## Theorems

* `failed_submit`, `batch_filed`, `batch_waited`: What changes in the log.
* `Tracked.congr`: What it depends on that a log keeps track.
* `Tracked.file`, `Tracked.submit`, `Tracked.wait`: What happens to descriptors.
* `Tracked.settled`, `Tracked.waited`: What a wait reports and leaves.
-/

namespace BlockJournal

open RingLog

namespace RingLog

-- The descriptors of a transaction once another one is filed, and once some were waited
-- for.
theorem batch_filed {log log' : RingLog} {other : Tid} {id : BufferId}
    (h : log'.pending = log.pending ++ [(other, id)]) (tid : Tid) :
    log'.batch tid = log.batch tid ++ if other = tid then [id] else [] := by
  rw [batch, batch, h, List.filter_append, List.map_append]
  by_cases ho : other = tid
  · rw [if_pos ho, List.filter_cons_of_pos (by simp only [ho, decide_true]), List.filter_nil]
    rfl
  · rw [if_neg ho, List.filter_cons_of_neg (by simp only [ho, decide_false,
      Bool.false_eq_true, not_false_eq_true]), List.filter_nil]
    rfl

theorem batch_waited {log log' : RingLog} {other : Tid}
    (h : log'.pending = log.pending.filter (fun entry => entry.1 ≠ other)) (tid : Tid) :
    log'.batch tid = if other = tid then [] else log.batch tid := by
  rw [batch, h, List.filter_filter]
  by_cases ho : other = tid
  · rw [if_pos ho, List.filter_eq_nil_iff.mpr fun entry _ => ?_]
    · rfl
    · simp only [ho, ne_eq, decide_not, Bool.and_eq_true, decide_eq_true_eq, Bool.not_eq_true',
        decide_eq_false_iff_not, and_not_self, not_false_eq_true]
  · rw [if_neg ho, batch]
    refine congrArg (List.map Prod.snd) (List.filter_congr fun entry _ => ?_)
    by_cases he : entry.1 = tid
    · simp only [he, Ne.symm ho, ne_eq, decide_true, not_false_eq_true, Bool.and_true]
    · simp only [he, decide_false, Bool.false_and]

-- The blocks whose writes failed, once a buffer was handed over.
theorem failed_submit (log : RingLog) (id : BufferId) (b : Buffer) :
    (LogService.submit log id b).next.failed =
      if (log.device.write b.block b.data).1.isOk then log.failed
      else log.failed.insert b.block := by
  rcases hwrite : log.device.write b.block b.data with ⟨e | ⟨⟩, device⟩
  · simp only [LogService.submit, hwrite]
    rfl
  · simp only [LogService.submit, hwrite]
    rfl

end RingLog

namespace Chronicle

/-- The log without its books. -/
def log (c : Chronicle) : RingLog := c.books.log

theorem alike_log : LogService.Alike Chronicle.log :=
  ⟨fun _ _ _ => rfl, fun _ => rfl, fun _ _ _ _ => rfl, fun _ _ _ => rfl⟩

/-- What a log with the buffers of `store` knows of its descriptors is what happened to
    them. -/
structure Tracked (c : Chronicle) (store : Store) : Prop where
  -- The log goes round.
  cycled : c.log.Cycled c.books.handed c.books.released
  -- Descriptors that were not waited for were filed since, and their blocks are taken.
  filed : ∀ tid id, (tid, id) ∈ c.log.pending → id < store.buffers.size ∧
    .filed tid id (store.get id).block ∈ since tid c.history ∧
    (store.get id).block ∈ c.books.handed.drop c.books.released
  -- They are all that were filed since.
  pending : ∀ tid id block, .filed tid id block ∈ since tid c.history → (tid, id) ∈ c.log.pending
  -- The blocks are all different.
  nodup : (c.log.pending.map fun entry => (store.get entry.2).block).Nodup
  -- A failure is that of one of them, which is on its way to the log.
  failed_nodup : c.log.failed.Nodup
  failed_sent : ∀ b ∈ c.log.failed, ∃ tid id, (tid, id) ∈ c.log.pending ∧ Sent store id ∧
    (store.get id).block = b
  -- What is known of the descriptors of a transaction is what is due to it.
  due_eq : ∀ tid, due tid c.history = sendings store c.log.failed (c.log.batch tid)
  -- Nothing happened twice, or to buffers that do not exist.
  listed : Listed c.history store.buffers.size

/-- The descriptor that was filed last, which was not handed over yet. -/
structure Newest (c : Chronicle) (store : Store) (tid : Tid) (id : BufferId) : Prop where
  -- It is the last one on the list of the log.
  pending : ∃ earlier, c.log.pending = earlier ++ [(tid, id)]
  -- Filing it is all that happened to its buffer.
  history : ∃ before, c.history = before ++ [.filed tid id (store.get id).block] ∧
    ∀ d ∈ before, ¬ d.Concerns id
  -- It is not on its way to the log.
  unsent : ¬ Sent store id

variable {c c' : Chronicle} {store store' : Store} {tid : Tid} {id : BufferId}

theorem Newest.mem (h : c.Newest store tid id) : (tid, id) ∈ c.log.pending := by
  rcases h.pending with ⟨earlier, hpending⟩
  rw [hpending]
  exact List.mem_append_right _ List.mem_cons_self

-- It stays what it is as long as its buffer is let alone.
theorem Newest.steady (h : c.Newest store tid id) (hstore : store.Steady store')
    (hid : id < store.buffers.size) : c.Newest store' tid id := by
  refine ⟨h.pending, ?_, fun hsent => h.unsent ((hstore.sent_iff id hid).mp hsent)⟩
  rw [hstore.block_eq id hid]
  exact h.history

-- A descriptor is told from the others by its block.
theorem Tracked.eq_of_block (h : c.Tracked store) {other : Tid} {id' : BufferId}
    (hid : (tid, id) ∈ c.log.pending) (hid' : (other, id') ∈ c.log.pending)
    (hblock : (store.get id).block = (store.get id').block) : tid = other ∧ id = id' :=
  Prod.mk.inj (List.inj_on_of_nodup_map h.nodup hid hid' hblock)

/-- What it depends on that a log knows about its descriptors. -/
theorem Tracked.congr (h : c.Tracked store) (hstore : store.Steady store')
    (hhistory : c'.history = c.history) (hpending : c'.log.pending = c.log.pending)
    (hfailed : c'.log.failed = c.log.failed)
    (hcycled : c'.log.Cycled c'.books.handed c'.books.released)
    (htaken : ∀ tid id, (tid, id) ∈ c.log.pending →
      (store.get id).block ∈ c'.books.handed.drop c'.books.released) : c'.Tracked store' := by
  have hlt : ∀ {tid id}, (tid, id) ∈ c.log.pending → id < store.buffers.size :=
    fun hid => (h.filed _ _ hid).1
  refine ⟨hcycled, fun t i hi => ?_, fun t i b hfiled => ?_, ?_, hfailed ▸ h.failed_nodup,
    fun b hb => ?_, fun t => ?_, hhistory ▸ h.listed.mono hstore.size_le⟩
  · rw [hpending] at hi
    rcases h.filed t i hi with ⟨hsize, hsince, _⟩
    rw [hhistory, hstore.block_eq i hsize]
    exact ⟨Nat.lt_of_lt_of_le hsize hstore.size_le, hsince, htaken t i hi⟩
  · rw [hpending]
    exact h.pending t i b (hhistory ▸ hfiled)
  · rw [hpending, List.map_congr_left fun entry hentry => hstore.block_eq entry.2 (hlt hentry)]
    exact h.nodup
  · rw [hfailed] at hb
    rcases h.failed_sent b hb with ⟨t, i, hi, hsent, hblock⟩
    refine ⟨t, i, hpending ▸ hi, (hstore.sent_iff i (hlt hi)).mpr hsent, ?_⟩
    rw [hstore.block_eq i (hlt hi), hblock]
  · have hbatch : c'.log.batch t = c.log.batch t := by rw [batch, batch, hpending]
    rw [hhistory, h.due_eq t, hfailed, hbatch]
    refine (List.filterMap_congr fun i hi => ?_).symm
    have hi' := hlt (mem_batch.mp hi)
    exact sending?_congr (hstore.sent_iff i hi') (hstore.block_eq i hi') Iff.rfl

/-- A new descriptor is filed. -/
theorem Tracked.file (h : c.Tracked store) (tid : Tid) (hid : id < store.buffers.size)
    (hfresh : ∀ d ∈ c.history, ¬ d.Concerns id)
    (hblock : ∀ other i, (other, i) ∈ c.log.pending → (store.get i).block ≠ (store.get id).block)
    (htaken : (store.get id).block ∈ c.books.handed.drop c.books.released)
    (hunsent : ¬ Sent store id) :
    (LogService.file c tid id (store.get id)).next.Tracked store := by
  let c' := (LogService.file c tid id (store.get id)).next
  have hpending : c'.log.pending = c.log.pending ++ [(tid, id)] := rfl
  have hhistory : c'.history = c.history ++ [.filed tid id (store.get id).block] := rfl
  have hnew : ∀ {t}, Deed.filed tid id (store.get id).block ≠ .waited t := by
    simp only [ne_eq, reduceCtorEq, not_false_eq_true, implies_true]
  refine ⟨h.cycled.congr h.cycled.fits rfl rfl rfl rfl rfl, fun t i hi => ?_,
    fun t i b hfiled => ?_, ?_, h.failed_nodup, fun b hb => ?_, fun t => ?_,
    h.listed.concat ?_ ?_⟩
  · change (t, i) ∈ c'.log.pending at hi
    change _ ∧ _ ∈ since t c'.history ∧ _
    rcases List.mem_append.mp (hpending ▸ hi) with hi | hi
    · rcases h.filed t i hi with ⟨hsize, hsince, hdrop⟩
      exact ⟨hsize, mem_since_concat.mpr ⟨hnew, Or.inl hsince⟩, hdrop⟩
    · rcases Prod.mk.inj (List.mem_singleton.mp hi) with ⟨rfl, rfl⟩
      exact ⟨hid, mem_since_concat.mpr ⟨hnew, Or.inr rfl⟩, htaken⟩
  · change _ ∈ c'.log.pending
    rw [hpending]
    rcases (mem_since_concat.mp hfiled).2 with hfiled | hfiled
    · exact List.mem_append_left _ (h.pending t i b hfiled)
    · rcases Deed.filed.inj hfiled with ⟨rfl, rfl, _⟩
      exact List.mem_append_right _ List.mem_cons_self
  · change (c'.log.pending.map _).Nodup
    rw [hpending, List.map_append, List.nodup_append]
    refine ⟨h.nodup, List.nodup_singleton _, fun b hb b' hb' => ?_⟩
    rcases List.mem_map.mp hb with ⟨⟨t, i⟩, hi, rfl⟩
    rw [List.mem_singleton.mp hb']
    exact hblock t i hi
  · rcases h.failed_sent b hb with ⟨t, i, hi, hsent⟩
    exact ⟨t, i, List.mem_append_left _ hi, hsent⟩
  · change due t c'.history = sendings store c.log.failed (c'.log.batch t)
    rw [hhistory, due_filed hfresh, h.due_eq, batch_filed hpending]
    split
    · rw [sendings_concat_of_unsent hunsent]
    · rw [List.append_nil]
  · rintro i rfl
    exact hid
  · exact fun d hd hrepeats => hfresh d hd hrepeats.concerns_filed

-- A block is among those whose writes failed, once another one was handed over.
theorem mem_failed_submit (log : RingLog) (id : BufferId) (b : Buffer) (other : BlockNumber) :
    other ∈ (LogService.submit log id b).next.failed ↔
      other ∈ log.failed ∨
        (other = b.block ∧ (log.device.write b.block b.data).1.isOk = false) := by
  rw [failed_submit]
  cases (log.device.write b.block b.data).1.isOk with
  | true => simp only [if_true, reduceCtorEq, and_false, or_false]
  | false =>
      simp only [Bool.false_eq_true, if_false, and_true, List.mem_insert_iff]
      exact or_comm

-- Other transactions have other descriptors, on other blocks.
theorem Tracked.ne_of_other (h : c.Tracked store) {other : Tid} (hid : (other, id) ∈ c.log.pending)
    (hother : other ≠ tid) : id ∉ c.log.batch tid ∧
      ∀ i ∈ c.log.batch tid, (store.get i).block ≠ (store.get id).block := by
  refine ⟨fun hmine => hother (h.eq_of_block hid (mem_batch.mp hmine) rfl).1, fun i hi heq => ?_⟩
  exact hother (h.eq_of_block (mem_batch.mp hi) hid heq).1.symm

-- The other descriptors have other buffers and other blocks.
theorem Tracked.ne_of_earlier (h : c.Tracked store) {earlier : List (Tid × BufferId)}
    (hpending : c.log.pending = earlier ++ [(tid, id)]) {other : Tid} {i : BufferId}
    (hi : (other, i) ∈ earlier) : i ≠ id ∧ (store.get i).block ≠ (store.get id).block := by
  have hnodup := h.nodup
  rw [hpending, List.map_append, List.nodup_append] at hnodup
  have hblock : (store.get i).block ≠ (store.get id).block :=
    hnodup.2.2 _ (List.mem_map_of_mem hi) _ List.mem_cons_self
  exact ⟨fun heq => hblock (heq ▸ rfl), hblock⟩

-- No write to its block has failed so far.
theorem Tracked.not_failed (h : c.Tracked store) (hnew : c.Newest store tid id) :
    (store.get id).block ∉ c.log.failed := by
  intro hb
  rcases h.failed_sent _ hb with ⟨t, i, hi, hsent, heq⟩
  exact hnew.unsent ((h.eq_of_block hi hnew.mem heq).2 ▸ hsent)

/-- What is due once the descriptor that was filed last is handed over: this descriptor as
    well, and it reached the device exactly if its block is not among those whose writes
    failed. -/
theorem Tracked.due_submit (h : c.Tracked store) (hnew : c.Newest store tid id)
    (hget : ∀ other, other ≠ id → store'.get other = store.get other)
    (hblock : (store'.get id).block = (store.get id).block) (hsent : Sent store' id)
    {failed : List BlockNumber} {reached : Bool}
    (hfailed : ∀ b, b ∈ failed ↔ b ∈ c.log.failed ∨ (b = (store'.get id).block ∧ reached = false))
    (t : Tid) :
    due t (c.history ++ [.submitted id reached]) = sendings store' failed (c.log.batch t) := by
  rcases hnew.pending with ⟨earlier, hpending⟩
  rcases hnew.history with ⟨before, hhistory, hfresh⟩
  have hself : decide ((store'.get id).block ∉ failed) = reached := by
    have hiff : (store'.get id).block ∉ failed ↔ reached = true := by
      rw [hfailed, ← Bool.not_eq_false]
      exact not_congr ⟨fun hb => (hb.resolve_left (hblock ▸ h.not_failed hnew)).2,
        fun hr => Or.inr ⟨rfl, hr⟩⟩
    exact Bool.eq_iff_iff.mpr (decide_eq_true_iff.trans hiff)
  let early : RingLog := { c.log with pending := earlier }
  have hsplit : c.log.batch t = early.batch t ++ if tid = t then [id] else [] :=
    @batch_filed early c.log tid id hpending t
  have hold : ∀ i ∈ early.batch t, sending? store' failed i = sending? store c.log.failed i := by
    intro i hi
    rcases h.ne_of_earlier hpending (mem_batch.mp hi) with ⟨hi', hb⟩
    refine sending?_congr ?_ (congrArg Buffer.block (hget i hi')) ?_
    · rw [Sent, Sent, hget i hi']
    · rw [hfailed, hblock]
      exact or_iff_left fun ho => hb ho.1
  have hearly : sendings store' failed (early.batch t) =
      sendings store c.log.failed (early.batch t) := List.filterMap_congr hold
  have hdue := h.due_eq t
  rw [hhistory, due_filed hfresh, hsplit] at hdue
  rw [hhistory, due_submitted hfresh, hdue, hsplit]
  by_cases ht : tid = t
  · rw [if_pos ht, if_pos ht, sendings_concat_of_unsent hnew.unsent,
      sendings_concat_of_sent hsent, hearly, hself, hblock]
  · rw [if_neg ht, if_neg ht, List.append_nil, List.append_nil, hearly]

/-- The descriptor that was filed last is handed over. -/
theorem Tracked.submit (h : c.Tracked store) (hnew : c.Newest store tid id)
    (hsize : store'.buffers.size = store.buffers.size)
    (hget : ∀ other, other ≠ id → store'.get other = store.get other)
    (hblock : (store'.get id).block = (store.get id).block) (hsent : Sent store' id) :
    (LogService.submit c id (store'.get id)).next.Tracked store' := by
  let b := store'.get id
  let reached := (c.log.device.write b.block b.data).1.isOk
  let c' := (LogService.submit c id b).next
  have hpending : c'.log.pending = c.log.pending := (c.log.next_submit id b rfl).1
  have hfailed : ∀ other, other ∈ c'.log.failed ↔
      other ∈ c.log.failed ∨ (other = b.block ∧ reached = false) :=
    mem_failed_submit c.log id b
  have hhanded : c'.books.handed = c.books.handed := Ledger.handed_write c.books b
  have hreleased : c'.books.released = c.books.released := Ledger.released_write c.books b
  have hblocks : ∀ i, (store'.get i).block = (store.get i).block := by
    intro i
    by_cases hi : i = id
    · rw [hi, hblock]
    · rw [hget i hi]
  change c'.Tracked store'
  refine ⟨?_, fun t i hi => ?_, fun t i other hfiled => ?_, ?_, ?_, fun other ho => ?_,
    fun t => ?_, hsize ▸ h.listed.concat ?_ ?_⟩
  · rw [hhanded, hreleased]
    exact h.cycled.submit id b
  · rcases h.filed t i (hpending ▸ hi) with ⟨hi', hsince, htaken⟩
    rw [hsize, hblocks, hhanded, hreleased]
    exact ⟨hi', mem_since_concat.mpr ⟨by simp only [ne_eq, reduceCtorEq, not_false_eq_true],
      Or.inl hsince⟩, htaken⟩
  · rw [hpending]
    exact h.pending t i other ((mem_since_concat.mp hfiled).2.resolve_right
      (by simp only [reduceCtorEq, not_false_eq_true]))
  · rw [hpending, List.map_congr_left fun entry _ => hblocks entry.2]
    exact h.nodup
  · have hnext : c'.log.failed = _ := failed_submit c.log id b
    rw [hnext]
    split
    · exact h.failed_nodup
    · exact h.failed_nodup.insert
  · rw [hpending]
    rcases (hfailed other).mp ho with ho | ⟨rfl, _⟩
    · rcases h.failed_sent other ho with ⟨t, i, hi, hs, heq⟩
      have hi' : i ≠ id := fun heq => hnew.unsent (heq ▸ hs)
      refine ⟨t, i, hi, ?_, (hblocks i).trans heq⟩
      rw [Sent, hget i hi']
      exact hs
    · exact ⟨tid, id, hnew.mem, hsent, rfl⟩
  · have hbatch : c'.log.batch t = c.log.batch t := by rw [batch, batch, hpending]
    rw [hbatch]
    exact h.due_submit hnew hget hblock hsent hfailed t
  · rintro i rfl
    exact (h.filed tid id hnew.mem).1
  · intro d hd hrepeats
    rcases hrepeats.eq_submitted with ⟨reached', rfl⟩
    rcases hnew.history with ⟨before, hbefore, hfresh⟩
    rw [hbefore] at hd
    rcases List.mem_append.mp hd with hd | hd
    · exact hfresh _ hd rfl
    · exact absurd (List.mem_singleton.mp hd) (by simp only [reduceCtorEq, not_false_eq_true])

/-- A transaction is waited for. -/
theorem Tracked.wait (h : c.Tracked store) {col : Collected}
    (hcol : Collected.Settled ⟨store, c.log.failed, [], []⟩ (c.log.batch tid) col)
    (hcycled : c'.log.Cycled c'.books.handed c'.books.released)
    (hhanded : c'.books.handed = c.books.handed) (hreleased : c'.books.released = c.books.released)
    (hpending : c'.log.pending = c.log.pending.filter (fun entry => entry.1 ≠ tid))
    (hfailed : c'.log.failed = col.failed) (hhistory : c'.history = c.history ++ [.waited tid]) :
    c'.Tracked col.store := by
  have hpending' : ∀ {t i}, (t, i) ∈ c'.log.pending ↔ (t, i) ∈ c.log.pending ∧ t ≠ tid := by
    intro t i
    rw [hpending, List.mem_filter, decide_eq_true_eq]
  refine ⟨hcycled, fun t i hi => ?_, fun t i b hfiled => ?_, ?_, hfailed ▸ hcol.nodup,
    fun b hb => ?_, fun t => ?_, ?_⟩
  · rcases hpending'.mp hi with ⟨hi, ht⟩
    rcases h.filed t i hi with ⟨hlt, hsince, htaken⟩
    rw [hcol.size_eq, hcol.block_eq, hhanded, hreleased, hhistory]
    exact ⟨hlt, mem_since_concat.mpr ⟨fun heq => ht (Deed.waited.inj heq).symm, Or.inl hsince⟩,
      htaken⟩
  · rw [hhistory] at hfiled
    rcases mem_since_concat.mp hfiled with ⟨ht, hfiled⟩
    exact hpending'.mpr ⟨h.pending t i b (hfiled.resolve_right
      (by simp only [reduceCtorEq, not_false_eq_true])), fun heq => ht (congrArg _ heq.symm)⟩
  · rw [hpending, List.map_congr_left fun entry _ => hcol.block_eq entry.2]
    exact (List.filter_sublist.map _).nodup h.nodup
  · rw [hfailed, hcol.failed_iff] at hb
    rcases h.failed_sent b hb.1 with ⟨t, i, hi, hsent, heq⟩
    have ht : t ≠ tid := by
      rintro rfl
      refine hb.2 ⟨i, b, decide (b ∉ c.log.failed)⟩ ?_ rfl
      exact mem_sendings.mpr ⟨mem_batch.mpr hi, hsent, heq.symm, decide_eq_true_iff⟩
    refine ⟨t, i, hpending'.mpr ⟨hi, ht⟩,
      (hcol.sent_iff i).mpr ⟨hsent, (h.ne_of_other hi ht).1⟩, ?_⟩
    exact (hcol.block_eq i).trans heq
  · rw [hhistory, due_waited, batch_waited hpending]
    by_cases ht : tid = t
    · rw [if_pos ht, if_pos ht]
      rfl
    · rw [if_neg ht, if_neg ht, h.due_eq, hfailed]
      refine (List.filterMap_congr fun i hi => ?_).symm
      rcases h.ne_of_other (mem_batch.mp hi) (Ne.symm ht) with ⟨hi', hblocks⟩
      exact hcol.sending?_eq hi' hblocks
  · rw [hcol.size_eq, hhistory]
    exact h.listed.concat (fun _ hi => hi.elim) fun _ _ => Deed.Repeats.not_waited

-- A wait settles the descriptors of its transaction.
theorem Tracked.settled {m : Mount RingLog} (h : c.Tracked m.store) (hlog : c.log = m.log)
    (tid : Tid) :
    ∃ col, Collected.Settled ⟨m.store, c.log.failed, [], []⟩ (c.log.batch tid) col ∧
      (m.wait tid).1 = report (due tid c.history) ∧ (m.wait tid).2.store = col.store ∧
      (m.wait tid).2.log =
        { c.log with
          pending := c.log.pending.filter (fun entry => entry.1 ≠ tid)
          failed := col.failed } := by
  rw [h.due_eq, hlog]
  exact Mount.settled_wait tid (hlog ▸ h.nodup) (hlog ▸ h.failed_nodup)

/-- The log after a wait. -/
theorem Tracked.waited {m : Mount RingLog} (h : c.Tracked m.store) (hlog : c.log = m.log)
    (tid : Tid) :
    (⟨c.books.setLog (m.wait tid).2.log, c.history ++ [.waited tid]⟩ : Chronicle).Tracked
      (m.wait tid).2.store := by
  rcases h.settled hlog tid with ⟨col, hcol, _, hstore, hwait⟩
  rw [hstore, hwait]
  exact h.wait hcol (h.cycled.congr h.cycled.fits rfl rfl rfl rfl rfl) rfl rfl rfl rfl rfl

end Chronicle

end BlockJournal
