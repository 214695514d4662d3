import BlockJournal.Proofs.Features
import BlockJournal.Proofs.Ring.Tracking

/-!
# What Waits Report

A wait reports what happened to the descriptors of its transaction, and nothing else.

Commits, waits, failing writes and releases may follow each other in any order, and
several transactions may have descriptors in the log at the same time. The device may begin
and stop to fail, and the journal may be aborted, in the middle of a commit as well. As long
as no block is released before its transaction was waited for, a wait fails exactly if a
descriptor that was handed over for its transaction since the last wait did not reach
the device, and otherwise returns the blocks of these descriptors.

A commit that runs into an abort leaves descriptors behind that were filed and are never
handed over. A wait tells them by the mark of a write on their buffers, which they lack.
Their blocks may have been written for other descriptors before, with or without success, so
the blocks alone would not do.

## Main definitions

* `Draft.Recorded`: A commit under way that keeps track of its descriptors.
* `Reports`: What a wait reports, and what it leaves to others.

## Theorems

* `Step.recorded`, `Recorded.strike`, `commitAmid_tracked`: Commits, step by step and strike
  by strike.
* `chronicleOp_tracked`, `chronicleOps_tracked`: Every operation, and every run.
* `Tracked.reports`: What a log that keeps track reports.
* `waits_report`: What the waits of a run report.
-/

namespace BlockJournal

open RingLog Chronicle

namespace Mount

-- The log is full.
theorem request_chronicle_none {m m' : Mount Chronicle} (h : m.request = (none, m')) :
    m'.log = m.log ∧ m'.store = m.store := by
  have hfree : m.log.log.free = 0 := free_of_request_none (request_exchange_eq alike_log h)
  have hlog := log_request m
  rw [h] at hlog
  refine ⟨hlog.trans ?_, store_of_core (core_request_none h)⟩
  change m.log.setBooks (LogService.request m.log.books).next = m.log
  rw [Ledger.next_request_full _ hfree]
  rfl

-- The log hands out its next block, in a new buffer.
theorem request_chronicle_some {m m' : Mount Chronicle} {id : BufferId}
    (h : m.request = (some id, m')) :
    0 < m.log.log.free ∧ id = m.store.buffers.size ∧ id < m'.store.buffers.size ∧
      m'.log = m.log.setBooks m.log.books.handOut ∧ m.store.Steady m'.store ∧
      (m'.store.get id).block = BlockNumber.ofNat m.log.log.head ∧ ¬ Sent m'.store id := by
  have hlog := log_request m
  rw [h] at hlog
  rcases Draft.request_eq_some (request_exchange_eq alike_log h) with
    ⟨hfree, hid, _, hsize, hnew, hold⟩
  change m'.store.buffers.size = m.store.buffers.size + 1 at hsize
  change m'.store.get id = _ at hnew
  refine ⟨hfree, hid, ?_, hlog.trans ?_, ⟨?_, fun i hi => ?_, fun i hi => ?_⟩, ?_, ?_⟩
  · rw [hsize, hid]
    exact Nat.lt_succ_self _
  · change m.log.setBooks (LogService.request m.log.books).next = _
    rw [Ledger.next_request _ hfree]
  · rw [hsize]
    exact Nat.le_succ _
  · exact congrArg Buffer.block (hold i hi)
  · have hsame : m'.store.get i = m.store.get i := hold i hi
    rw [Sent, Sent, hsame]
  · rw [hnew]
    rfl
  · rw [Sent, hnew]
    exact Bool.false_ne_true

end Mount

namespace Chronicle

variable {c : Chronicle} {store store' : Store}

-- Blocks that are taken stay taken when another one is handed out.
theorem Tracked.drop_handOut (h : c.Tracked store) :
    c.books.handOut.handed.drop c.books.handOut.released =
      c.books.handed.drop c.books.released ++ [BlockNumber.ofNat c.log.head] :=
  List.drop_append_of_le_length h.cycled.released_le

/-- A block is handed out. -/
theorem Tracked.handOut (h : c.Tracked store) (hfree : 0 < c.log.free)
    (hstore : store.Steady store') : (c.setBooks c.books.handOut).Tracked store' := by
  refine h.congr hstore rfl rfl rfl (h.cycled.advance hfree) fun tid id hid => ?_
  change _ ∈ c.books.handOut.handed.drop c.books.handOut.released
  rw [h.drop_handOut]
  exact List.mem_append_left _ (h.filed tid id hid).2.2

/-- The device is told whether to refuse writes. -/
theorem Tracked.setFailing (h : c.Tracked store) (failing : Bool) :
    (DeviceLog.setFailing c failing).Tracked store := by
  refine h.congr (.refl _) rfl rfl rfl ?_ fun tid id hid => (h.filed tid id hid).2.2
  exact h.cycled.congr ⟨h.cycled.fits.pos, h.cycled.fits.lt⟩ rfl rfl rfl rfl rfl

end Chronicle

namespace Draft

/-- A commit under way that began with the list `start` and keeps track of its
    descriptors. -/
structure Recorded (start : List Deed) (tid : Tid) (d : Draft Chronicle) : Prop where
  -- The log knows what happened.
  tracked : d.mount.log.Tracked d.mount.store
  -- What happened before is still on the list.
  grown : start <+: d.mount.log.history
  -- The descriptor being filled is the one that was filed last.
  filling : ∀ desc, d.current = some desc → d.mount.log.Newest d.mount.store tid desc.buffer

variable {start : List Deed} {tid : Tid} {width : RecordWidth} {d d' : Draft Chronicle}
  {rs : List Record}

-- A step that asks the log for nothing.
theorem Recorded.quiet (hd : d.Recorded start tid) (hlog : d'.mount.log = d.mount.log)
    (hstore : d.mount.store.Steady d'.mount.store)
    (hcurrent : ∀ desc', d'.current = some desc' →
      ∃ desc, d.current = some desc ∧ desc'.buffer = desc.buffer) : d'.Recorded start tid := by
  have htracked : d.mount.log.Tracked d'.mount.store :=
    hd.tracked.congr hstore rfl rfl rfl hd.tracked.cycled fun t i hi =>
      (hd.tracked.filed t i hi).2.2
  refine ⟨hlog ▸ htracked, hlog ▸ hd.grown, fun desc' hdesc => ?_⟩
  rcases hcurrent desc' hdesc with ⟨desc, hcur, hbuffer⟩
  have hnew := hd.filling desc hcur
  rw [hlog, hbuffer]
  exact hnew.steady hstore (hd.tracked.filed tid desc.buffer hnew.mem).1

-- A step after which no descriptor is being filled.
theorem recorded_of_none (htracked : d.mount.log.Tracked d.mount.store)
    (hgrown : start <+: d.mount.log.history) (hcur : d.current = none) : d.Recorded start tid := by
  refine ⟨htracked, hgrown, fun desc hdesc => ?_⟩
  rw [hcur] at hdesc
  exact absurd hdesc (by simp only [reduceCtorEq, not_false_eq_true])

-- Contents that are stored in a buffer neither move nor send it.
theorem steady_setData (store : Store) (id : BufferId) (data : Bytes) :
    store.Steady (store.modify id (·.setData data)) :=
  Store.steady_modify store id (fun _ => rfl) (fun _ => rfl)

-- A descriptor is asked for and filed.
theorem Recorded.opened (hd : d.Recorded start tid) {id : BufferId} {m m' : Mount Chronicle}
    (hrequest : d.mount.request = (some id, m)) {data : Bytes}
    (hfile : (m.modifyBuffer id (·.setData data)).file tid id = m') (capacity room : Nat) :
    ({ d with mount := m', current := some ⟨id, capacity, room, width, 0, []⟩ } :
      Draft Chronicle).Recorded start tid := by
  rcases Mount.request_chronicle_some hrequest with
    ⟨hfree, hid, hlt, hlog, hsteady, hblock, hunsent⟩
  let c := d.mount.log.setBooks d.mount.log.books.handOut
  let s := m.store.modify id (·.setData data)
  have hdata := steady_setData m.store id data
  have hunsent' : ¬ Sent s id := fun hs => hunsent ((hdata.sent_iff id hlt).mp hs)
  have hblock' : (s.get id).block = BlockNumber.ofNat d.mount.log.log.head :=
    (hdata.block_eq id hlt).trans hblock
  have hall := hsteady.trans hdata
  have hhanded : c.Tracked s := hd.tracked.handOut hfree hall
  have hfresh : ∀ e ∈ c.history, ¬ e.Concerns id :=
    hd.tracked.listed.fresh (Nat.le_of_eq hid.symm)
  -- The block that was handed out is not one of those that are taken.
  have hblocks : ∀ t i, (t, i) ∈ c.log.pending → (s.get i).block ≠ (s.get id).block := by
    intro t i hi heq
    rcases hd.tracked.filed t i hi with ⟨hi', _, htaken⟩
    rw [hblock', hall.block_eq i hi'] at heq
    exact hd.tracked.cycled.head_not_mem hfree (heq ▸ htaken)
  have htaken : (s.get id).block ∈ c.books.handed.drop c.books.released := by
    change _ ∈ d.mount.log.books.handOut.handed.drop d.mount.log.books.handOut.released
    rw [hd.tracked.drop_handOut, hblock']
    exact List.mem_append_right _ List.mem_cons_self
  have hfiled := hhanded.file tid (Nat.lt_of_lt_of_le hlt hdata.size_le) hfresh hblocks htaken
    hunsent'
  have hlog' : m'.log = (LogService.file c tid id (s.get id)).next := by
    rw [← hfile, Mount.log_file]
    change (LogService.file m.log tid id (s.get id)).next = _
    rw [hlog]
  have hstore' : m'.store = s := by
    rw [← hfile]
    exact congrArg Mount.store (Mount.file_exchange alike_log (m.modifyBuffer id _) tid id).symm
  rw [← hlog', ← hstore'] at hfiled
  have hhistory : m'.log.history = d.mount.log.history ++ [.filed tid id (s.get id).block] := by
    rw [hlog']
    rfl
  refine ⟨hfiled, ?_, fun desc hdesc => ?_⟩
  · change start <+: m'.log.history
    rw [hhistory]
    exact hd.grown.trans (List.prefix_append _ _)
  · rw [← Option.some.inj hdesc]
    change m'.log.Newest m'.store tid id
    rw [hstore']
    refine ⟨⟨c.log.pending, ?_⟩, ⟨d.mount.log.history, hhistory, hfresh⟩, hunsent'⟩
    rw [hlog']
    rfl

-- The descriptor being filled is handed to the log.
theorem Recorded.submit (hd : d.Recorded start tid) {desc : OpenDescriptor}
    (hcur : d.current = some desc) (data : Bytes) (e : Event) {m : Mount Chronicle}
    (hm : m = (d.mount.modifyBuffer desc.buffer
      (fun b => ((b.setData data).setLogWrite true).setDirty false)).emit e) :
    (m.submit desc.buffer).log.Tracked (m.submit desc.buffer).store ∧
      start <+: (m.submit desc.buffer).log.history := by
  have hnew := hd.filling desc hcur
  have hlt := (hd.tracked.filed tid desc.buffer hnew.mem).1
  have hself : m.store.get desc.buffer =
      ((((d.mount.store.get desc.buffer).setData data).setLogWrite true).setDirty false) := by
    rw [hm]
    exact (Store.get_modify _ _ _ _).trans (if_pos ⟨rfl, hlt⟩)
  have hlog : m.log = d.mount.log := by
    rw [hm]
    rfl
  have hsubmit : (m.submit desc.buffer).log =
      (LogService.submit d.mount.log desc.buffer (m.store.get desc.buffer)).next := by
    rw [Mount.log_submit, hlog]
  have hstore : (m.submit desc.buffer).store = m.store := Mount.store_absorb m _
  rw [hsubmit, hstore]
  refine ⟨hd.tracked.submit hnew ?_ (fun other hother => ?_) ?_ ?_,
    hd.grown.trans (List.prefix_append _ _)⟩
  · rw [hm]
    exact Store.size_modify _ _ _
  · rw [hm]
    exact (Store.get_modify _ _ _ _).trans (if_neg fun h => hother h.1.symm)
  · rw [hself]
    rfl
  · rw [Sent, hself]
    rfl

/-- Every step keeps track. -/
theorem Step.recorded (h : Step tid width d rs d') (hd : d.Recorded start tid) :
    d'.Recorded start tid := by
  cases h with
  | count => exact hd.quiet rfl (.refl _) fun desc hcur => ⟨desc, hcur, rfl⟩
  | drop r _ => exact hd.quiet rfl (.refl _) fun desc hcur => ⟨desc, hcur, rfl⟩
  | refused m e hcur hrequest =>
      rcases Mount.request_chronicle_none hrequest with ⟨hlog, hstore⟩
      exact hd.quiet hlog (.of_eq hstore) fun desc hcur => ⟨desc, hcur, rfl⟩
  | unopened id m data cause e hcur hrequest hopen =>
      rcases Mount.request_chronicle_some hrequest with ⟨hfree, _, _, hlog, hsteady, _⟩
      have htracked := hd.tracked.handOut hfree (hsteady.trans (steady_setData m.store id data))
      refine recorded_of_none (hlog ▸ htracked) ?_ hcur
      change start <+: m.log.history
      rw [hlog]
      exact hd.grown
  | opened id m m' data hcur hrequest hopen hfile => exact hd.opened hrequest hfile _ _
  | unfit desc r cause e hcur hroom hadd =>
      exact hd.quiet rfl (.refl _) fun desc hcur => ⟨desc, hcur, rfl⟩
  | added desc desc' r hcur hroom hadd =>
      refine hd.quiet rfl (.refl _) fun desc'' hdesc => ⟨desc, hcur, ?_⟩
      rw [← Option.some.inj hdesc, OpenDescriptor.buffer_add hadd]
  | lost desc e hcur habort => exact recorded_of_none hd.tracked hd.grown rfl
  | unclosed desc data cause e hcur habort hclose =>
      refine hd.quiet rfl (steady_setData _ _ data) fun desc' hdesc => ?_
      exact absurd hdesc (by simp only [Draft.drop, reduceCtorEq, not_false_eq_true])
  | submitted desc data e hcur habort hclose =>
      rcases hd.submit hcur data e rfl with ⟨htracked, hgrown⟩
      exact recorded_of_none htracked hgrown rfl

/-- So does every strike. -/
theorem Recorded.strike (hd : d.Recorded start tid) (s : Strike) :
    ({ d with mount := d.mount.strike s } : Draft Chronicle).Recorded start tid := by
  cases s with
  | abort =>
      exact hd.quiet (Mount.log_abort d.mount)
        (.of_eq (Mount.store_of_core (Mount.core_abort d.mount))) fun desc hcur => ⟨desc, hcur, rfl⟩
  | setFailing failing =>
      refine ⟨hd.tracked.setFailing failing, hd.grown, fun desc hcur => ?_⟩
      have hnew := hd.filling desc hcur
      exact ⟨hnew.pending, hnew.history, hnew.unsent⟩

theorem StepsAmid.recorded (h : StepsAmid tid width d d') (hd : d.Recorded start tid) :
    d'.Recorded start tid := by
  induction h with
  | refl => exact hd
  | step _ hstep ih => exact hstep.recorded ih
  | strike _ s ih => exact ih.strike s

end Draft

namespace Mount

/-- A commit under strikes keeps track of its descriptors, and of those that were there. -/
theorem commitAmid_tracked (m : Mount Chronicle) (h : m.log.Tracked m.store) (tid : Tid)
    (strikes : List Strikes) (last : List Strike) :
    (m.commitAmid tid strikes last).2.log.Tracked (m.commitAmid tid strikes last).2.store ∧
      m.log.history <+: (m.commitAmid tid strikes last).2.log.history := by
  rcases Draft.stepsAmid_commitAmid m tid strikes last with ⟨d, e, hsteps, _, heq⟩
  have hbegin : Draft.Recorded m.log.history tid (⟨m.drainTable.2, {}, none⟩ : Draft Chronicle) :=
    Draft.recorded_of_none h (List.prefix_refl _) rfl
  have hd := hsteps.recorded hbegin
  rw [heq]
  exact ⟨hd.tracked, hd.grown⟩

/-- So does every call. -/
theorem after_tracked (m : Mount Chronicle) (h : m.log.Tracked m.store) (c : Call) :
    (m.after c).log.Tracked (m.after c).store ∧ m.log.history <+: (m.after c).log.history := by
  by_cases hc : ∃ tid, c = .commit tid
  · rcases hc with ⟨tid, rfl⟩
    have hcommit := m.commitAmid_tracked h tid [] []
    rw [commitAmid_nil] at hcommit
    exact hcommit
  · have hcommit : ∀ tid, c ≠ .commit tid := fun tid heq => hc ⟨tid, heq⟩
    have hsteady := m.steady_after hcommit
    have htaken := fun t i hi => (h.filed t i hi).2.2
    rcases m.log_after hcommit with hlog | ⟨tid, b, hlog⟩
    · rw [hlog]
      exact ⟨h.congr hsteady rfl rfl rfl h.cycled htaken, List.prefix_refl _⟩
    · rw [hlog]
      refine ⟨h.congr hsteady rfl rfl rfl ?_ htaken, List.prefix_refl _⟩
      exact h.cycled.congr h.cycled.fits rfl rfl rfl rfl rfl

/-- So does every operation, if blocks are released only after they were waited for. -/
theorem chronicleOp_tracked (m : Mount Chronicle) (h : m.log.Tracked m.store) {op : RingOp}
    (hop : m.Retires op) :
    (m.chronicleOp op).log.Tracked (m.chronicleOp op).store ∧
      m.log.history <+: (m.chronicleOp op).log.history := by
  have htaken := fun t i hi => (h.filed t i hi).2.2
  cases op with
  | call c => exact m.after_tracked h c
  | commitAmid tid strikes last => exact m.commitAmid_tracked h tid strikes last
  | request =>
      rcases hr : m.request with ⟨_ | id, m'⟩
      · rcases request_chronicle_none hr with ⟨hlog, hstore⟩
        rw [chronicleOp, hr, hlog, hstore]
        exact ⟨h, List.prefix_refl _⟩
      · rcases request_chronicle_some hr with ⟨hfree, _, _, hlog, hsteady, _⟩
        rw [chronicleOp, hr, hlog]
        exact ⟨h.handOut hfree hsteady, List.prefix_refl _⟩
  | wait tid =>
      exact ⟨@Tracked.waited m.log m.unchronicled.unbooked h rfl tid, List.prefix_append _ _⟩
  | release count =>
      refine ⟨h.congr (.refl _) (List.append_nil _) rfl rfl (h.cycled.release count)
        fun t i hi => ?_, List.prefix_append _ _⟩
      have hin := htaken t i hi
      have hnot : (m.store.get i).block ∉ m.log.books.taken.take count := fun hmem =>
        hop _ hmem (mem_owed.mpr ⟨t, i, (h.filed t i hi).2.1⟩)
      rw [Ledger.taken_of_cycled h.cycled] at hnot
      -- The oldest of the blocks that are taken go, and this is not one of them.
      rw [← List.take_append_drop count (m.log.books.handed.drop m.log.books.released)] at hin
      have hdrop := (List.mem_append.mp hin).resolve_left hnot
      rw [List.drop_drop] at hdrop
      change _ ∈ m.log.books.handed.drop
        (min (m.log.books.released + count) m.log.books.handed.length)
      rw [Nat.min_eq_left]
      · exact hdrop
      · by_contra hc
        rw [List.drop_eq_nil_of_le (Nat.le_of_not_le hc)] at hdrop
        exact absurd hdrop List.not_mem_nil
  | setFailing failing =>
      refine ⟨(h.setFailing failing).congr (.refl _) (List.append_nil _) rfl rfl ?_ htaken,
        List.prefix_append _ _⟩
      exact (h.setFailing failing).cycled
  | abort =>
      have hlog : m.unchronicled.unbooked.abort.log = m.log.books.log := log_abort _
      have hstore : (m.chronicleOp .abort).store = m.store :=
        store_of_core (core_abort m.unchronicled.unbooked)
      have hsame : (m.chronicleOp .abort).log = m.log := by
        change (⟨m.log.books.setLog m.unchronicled.unbooked.abort.log, _⟩ : Chronicle) = _
        rw [hlog]
        exact congrArg (Chronicle.mk m.log.books) (List.append_nil _)
      rw [hstore, hsame]
      exact ⟨h, List.prefix_refl _⟩

/-- A new log has nothing to keep track of. -/
theorem tracked_create {device : Device} (hdevice : device.Made) {first last : BlockNumber}
    {m : Mount RingLog} (hlog : RingLog.create device first last = .ok m.log) :
    m.chronicled.log.Tracked m.chronicled.store := by
  have hcycled := (cycled_create hdevice.fits hlog).1
  rcases RingLog.create_eq_ok hlog with ⟨_, _, hnew⟩
  have hpending : m.log.pending = [] := congrArg RingLog.pending hnew
  have hfailed : m.log.failed = [] := congrArg RingLog.failed hnew
  refine ⟨hcycled, fun tid id hid => ?_, fun _ _ _ hfiled => absurd hfiled List.not_mem_nil, ?_,
    ?_, fun b hb => ?_, fun tid => ?_, ⟨fun d hd => absurd hd List.not_mem_nil, .nil⟩⟩
  · change _ ∈ m.log.pending at hid
    rw [hpending] at hid
    exact absurd hid List.not_mem_nil
  · change (m.log.pending.map _).Nodup
    rw [hpending]
    exact List.nodup_nil
  · change m.log.failed.Nodup
    rw [hfailed]
    exact List.nodup_nil
  · change b ∈ m.log.failed at hb
    rw [hfailed] at hb
    exact absurd hb List.not_mem_nil
  · change [] = sendings _ _ (m.log.batch tid)
    rw [batch, hpending]
    rfl

/-- Every run keeps track, and what happened stays on the list. -/
theorem chronicleOps_tracked {m : Mount Chronicle} (h : m.log.Tracked m.store)
    {ops : List RingOp} (hops : m.Careful ops) :
    (m.chronicleOps ops).log.Tracked (m.chronicleOps ops).store ∧
      m.log.history <+: (m.chronicleOps ops).log.history := by
  induction ops generalizing m with
  | nil => exact ⟨h, List.prefix_refl _⟩
  | cons op ops ih =>
      rcases m.chronicleOp_tracked h hops.1 with ⟨hop, hgrown⟩
      rcases ih hop hops.2 with ⟨hall, hgrown'⟩
      exact ⟨hall, hgrown.trans hgrown'⟩

/-- What happened in a run to the descriptors of a log. -/
def history (m : Mount RingLog) (ops : List RingOp) : List Deed :=
  (m.chronicled.chronicleOps ops).log.history

end Mount

/-- What a wait for a transaction reports after the deeds `h`, and what it leaves. -/
structure Reports (h : List Deed) (m : Mount RingLog) (tid : Tid) : Prop where
  -- It fails if anything that is due did not reach the device, and returns the blocks of
  -- what is due otherwise.
  wait_eq : (m.wait tid).1 = report (due tid h)
  -- What is due was filed under the transaction, and handed over since the last wait.
  mem_due_iff : ∀ d, d ∈ due tid h ↔
    .filed tid d.id d.block ∈ h ∧ .submitted d.id d.reached ∈ since tid h
  -- It is due once, and in the order in which it was filed.
  nodup : ((due tid h).map Sending.id).Nodup
  sublist : ((due tid h).map fun d => (d.id, d.block)).Sublist (filings tid h)
  -- A descriptor that was filed and never handed over is not due, and as long as its
  -- transaction was not waited for since, neither is anything else on its block.
  unsent : ∀ t id b, .filed t id b ∈ h → (∀ reached, .submitted id reached ∉ h) →
    ∀ d ∈ due tid h, d.id ≠ id ∧ (.filed t id b ∈ since t h → d.block ≠ b)
  -- Failures are remembered for those that did not wait yet.
  failed_iff : ∀ b, b ∈ m.log.failed ↔ ∃ t, ∃ d ∈ due t h, d.block = b ∧ d.reached = false
  failed_wait_iff : ∀ b, b ∈ (m.wait tid).2.log.failed ↔
    ∃ t, t ≠ tid ∧ ∃ d ∈ due t h, d.block = b ∧ d.reached = false
  -- A transaction has the descriptors that were filed since it was waited for.
  mem_batch_iff : ∀ t id, id ∈ m.log.batch t ↔ ∃ b, .filed t id b ∈ since t h
  -- The wait takes all of them off the list.
  batch_self : (m.wait tid).2.log.batch tid = []
  -- Other transactions have the same descriptors, and wait for them as before.
  batch_eq : ∀ other, other ≠ tid → (m.wait tid).2.log.batch other = m.log.batch other
  get_eq : ∀ other, other ≠ tid → ∀ id ∈ m.log.batch other,
    (m.wait tid).2.store.get id = m.store.get id
  others : ∀ other, other ≠ tid → ((m.wait tid).2.wait other).1 = (m.wait other).1

-- What keeps some entries of a list keeps their order.
theorem sublist_of_filterMap {α β : Type} {f : α → Option β} {g : β → α}
    (h : ∀ a b, f a = some b → g b = a) (l : List α) : ((l.filterMap f).map g).Sublist l := by
  induction l with
  | nil => exact List.Sublist.slnil
  | cons a l ih =>
      cases hf : f a with
      | none =>
          rw [List.filterMap_cons_none hf]
          exact ih.cons a
      | some b =>
          rw [List.filterMap_cons_some hf, List.map_cons, h a b hf]
          exact ih.cons_cons a

namespace Chronicle

variable {c : Chronicle} {store : Store} {tid : Tid}

theorem Tracked.mem_due_iff (h : c.Tracked store) (d : Sending) :
    d ∈ due tid c.history ↔ .filed tid d.id d.block ∈ c.history ∧
      .submitted d.id d.reached ∈ since tid c.history := by
  rw [mem_due, outcome_eq_some_iff (h.listed.once.sublist (since_suffix tid c.history).sublist)]

theorem Tracked.nodup_due (h : c.Tracked store) (tid : Tid) :
    ((due tid c.history).map Sending.id).Nodup := by
  rw [h.due_eq]
  refine (sublist_of_filterMap (fun id d hd => ?_) _).nodup ((nodup_batch h.nodup tid).of_map _)
  rw [sending?, Option.ite_none_right_eq_some, Option.some.injEq] at hd
  rw [← hd.2]

theorem Tracked.mem_batch_iff (h : c.Tracked store) (t : Tid) (id : BufferId) :
    id ∈ c.log.batch t ↔ ∃ b, .filed t id b ∈ since t c.history := by
  rw [mem_batch]
  exact ⟨fun hid => ⟨_, (h.filed t id hid).2.1⟩, fun ⟨b, hfiled⟩ => h.pending t id b hfiled⟩

-- A descriptor that was filed since is on the block that it was filed with.
theorem Tracked.block_eq (h : c.Tracked store) {t : Tid} {id : BufferId} {b : BlockNumber}
    (hfiled : .filed t id b ∈ since t c.history) : (store.get id).block = b := by
  have hfiled' := (h.filed t id (h.pending t id b hfiled)).2.1
  have heq := eq_of_repeats h.listed.once (mem_of_mem_since hfiled') (mem_of_mem_since hfiled) rfl
  exact (Deed.filed.inj heq).2.2

-- What was never handed over is not due, and its block is not that of anything that is.
theorem Tracked.unsent (h : c.Tracked store) {t : Tid} {id : BufferId} {b : BlockNumber}
    (hunsent : ∀ reached, .submitted id reached ∉ c.history) {d : Sending}
    (hd : d ∈ due tid c.history) :
    d.id ≠ id ∧ (.filed t id b ∈ since t c.history → d.block ≠ b) := by
  have hne : d.id ≠ id := by
    rintro rfl
    exact hunsent _ (mem_of_mem_since ((h.mem_due_iff d).mp hd).2)
  refine ⟨hne, fun hfiled heq => hne ?_⟩
  rw [h.due_eq, mem_sendings] at hd
  rcases hd with ⟨hmine, _, hblock, _⟩
  rw [hblock, ← h.block_eq hfiled] at heq
  exact (h.eq_of_block (mem_batch.mp hmine) (h.pending t id b hfiled) heq).2

theorem Tracked.failed_iff (h : c.Tracked store) (b : BlockNumber) :
    b ∈ c.log.failed ↔ ∃ t, ∃ d ∈ due t c.history, d.block = b ∧ d.reached = false := by
  simp only [h.due_eq, mem_sendings, mem_batch]
  constructor
  · intro hb
    rcases h.failed_sent b hb with ⟨t, id, hid, hsent, heq⟩
    exact ⟨t, ⟨id, b, false⟩, ⟨hid, hsent, heq.symm,
      iff_of_false Bool.false_ne_true fun hno => hno hb⟩, rfl, rfl⟩
  · rintro ⟨t, d, ⟨_, _, _, hreached⟩, rfl, hlost⟩
    by_contra hno
    rw [hreached.mpr hno] at hlost
    exact absurd hlost (by simp only [reduceCtorEq, not_false_eq_true])

/-- What a log that keeps track reports. -/
theorem Tracked.reports {m : Mount RingLog} (h : c.Tracked m.store) (hlog : c.log = m.log)
    (tid : Tid) : Reports c.history m tid := by
  have hwaited := h.waited hlog tid
  rcases h.settled hlog tid with ⟨col, hcol, hreport, hstore, hwait⟩
  have hdue : ∀ t, due t (c.history ++ [.waited tid]) = if tid = t then [] else due t c.history :=
    fun t => due_waited c.history t tid
  refine ⟨hreport, h.mem_due_iff, h.nodup_due tid, ?_, fun _ _ _ _ hunsent _ hd =>
    h.unsent hunsent hd, fun b => ?_, fun b => ?_, fun t id => ?_,
    (batch_waited rfl tid).trans (if_pos rfl), fun other hother => ?_,
    fun other hother id hid => ?_, fun other hother => ?_⟩
  · refine sublist_of_filterMap (fun f d hd => ?_) _
    rcases Option.map_eq_some_iff.mp hd with ⟨reached, _, rfl⟩
    rfl
  · rw [← hlog]
    exact h.failed_iff b
  · refine (hwaited.failed_iff b).trans (exists_congr fun t => ?_)
    rw [hdue]
    by_cases ht : tid = t
    · rw [if_pos ht]
      simp only [List.not_mem_nil, false_and, exists_false, ht, ne_eq, not_true]
    · rw [if_neg ht]
      simp only [ne_eq, Ne.symm ht, not_false_eq_true, true_and]
  · rw [← hlog]
    exact h.mem_batch_iff t id
  · exact (batch_waited rfl other).trans (if_neg (Ne.symm hother))
  · rw [← hlog] at hid
    rw [hstore]
    exact hcol.get_eq id (h.ne_of_other (mem_batch.mp hid) hother).1
  · rcases hwaited.settled rfl other with ⟨_, _, hagain, _⟩
    rcases h.settled hlog other with ⟨_, _, hbefore, _⟩
    rw [hagain, hbefore]
    exact congrArg report ((hdue other).trans (if_neg (Ne.symm hother)))

end Chronicle

namespace Mount

-- The run without the chronicle is the run itself.
theorem chronicleOps_ring (m : Mount RingLog) (ops : List RingOp) :
    (m.chronicled.chronicleOps ops).log.log = (m.runOps ops).log ∧
      (m.chronicled.chronicleOps ops).store = (m.runOps ops).store := by
  have hsame := unchronicled_chronicleOps m ops
  exact ⟨congrArg Mount.log hsame, congrArg Mount.store hsame⟩

/-- Whatever happens to a log of which no block is released before its transaction was
    waited for, during commits and between them: a wait fails exactly if a descriptor that
    was handed over for its transaction since the last wait did not reach the device, and
    returns the blocks of these descriptors otherwise. Descriptors that were filed and never
    handed over are reported by none. A wait leaves to other transactions what they have
    coming to them, and what it reports is not reported again. -/
theorem waits_report {device : Device} (hdevice : device.Made) {first last : BlockNumber}
    {m : Mount RingLog} (hlog : RingLog.create device first last = .ok m.log)
    {ops : List RingOp} (hops : m.chronicled.Careful ops) (tid : Tid) :
    (m.chronicled.chronicleOps ops).unchronicled.unbooked = m.runOps ops ∧
    Reports (m.history ops) (m.runOps ops) tid ∧
    ∀ later other, m.chronicled.Careful (ops ++ .wait tid :: later) →
      ∀ d ∈ due tid (m.history ops),
        ∀ d' ∈ due other (m.history (ops ++ .wait tid :: later)), d'.id ≠ d.id := by
  have hstart := m.tracked_create hdevice hlog
  rcases chronicleOps_tracked hstart hops with ⟨htracked, _⟩
  rcases m.chronicleOps_ring ops with ⟨hring, hstore⟩
  refine ⟨m.unchronicled_chronicleOps ops, ?_, fun later other hlater d hd d' hd' => ?_⟩
  · rw [hstore] at htracked
    exact htracked.reports hring tid
  · rcases ((careful_append _ _ _).mp hlater).2 with ⟨hwait, hrest⟩
    have hwaited := ((m.chronicled.chronicleOps ops).chronicleOp_tracked htracked hwait).1
    rcases (chronicleOps_tracked hwaited hrest).2 with ⟨deeds, hdeeds⟩
    have hhistory := calc
      m.history (ops ++ .wait tid :: later)
        = (((m.chronicled.chronicleOps ops).chronicleOp (.wait tid)).chronicleOps
            later).log.history :=
          congrArg (fun m : Mount Chronicle => m.log.history) List.foldl_append
      _ = m.history ops ++ [.waited tid] ++ deeds := hdeeds.symm
      _ = m.history ops ++ .waited tid :: deeds := List.append_assoc _ _ _
    have honce := (chronicleOps_tracked hstart hlater).1.listed.once
    change (m.history _).Pairwise _ at honce
    rw [hhistory] at hd' honce
    exact not_due_again honce hd hd'

end Mount

/-- A device with room for two wide records in a block. -/
def tightDevice : Device := ⟨32, Array.replicate 6 (Bytes.zeros 32), 0, false⟩

/-- A small journal with wide records, and a log of four blocks on such a device. -/
def tightMount : Mount RingLog :=
  { wideMount with
    build := .release
    journal.config.recordLimit := none
    pool := Pool.new none
    log := ⟨tightDevice, 1, 5, 1, 4, [], [], []⟩ }

/-- A commit takes three descriptors, and the device refuses the second one only. Another
    transaction commits after it and is waited for. -/
def struckOps : List RingOp :=
  [11, 12, 13, 14, 15].map (fun b => .call (.revoke ⟨1⟩ ⟨b⟩ none)) ++
    [.commitAmid ⟨1⟩ [{}, {}, {}, {}, { after := [.setFailing true] }] [.setFailing false],
      .call (.revoke ⟨2⟩ ⟨21⟩ none), .call (.commit ⟨2⟩), .wait ⟨2⟩]

/-- All blocks are released. The journal is aborted when the first transaction has used two
    of them again and has written one of these. -/
def abortedOps : List RingOp :=
  .release 4 :: [16, 17, 18].map (fun b => .call (.revoke ⟨1⟩ ⟨b⟩ none)) ++
    [.commitAmid ⟨1⟩ [] [.abort]]

-- The failure waits for the transaction that suffered it and is not reported again, though its
-- block is used again. The descriptor that was filed there last was never handed over, and is
-- reported neither as written nor as lost.
theorem waits_report_struck :
    Reports (tightMount.history struckOps) (tightMount.runOps struckOps) ⟨1⟩ ∧
    due ⟨1⟩ (tightMount.history struckOps) = [⟨0, ⟨1⟩, true⟩, ⟨1, ⟨2⟩, false⟩, ⟨2, ⟨3⟩, true⟩] ∧
    ((tightMount.runOps struckOps).wait ⟨1⟩).1 = .error (.logWriteFailed [⟨2⟩]) ∧
    filings ⟨1⟩ (tightMount.history (struckOps ++ .wait ⟨1⟩ :: abortedOps)) =
      [(0, ⟨1⟩), (1, ⟨2⟩), (2, ⟨3⟩), (4, ⟨1⟩), (5, ⟨2⟩)] ∧
    (∀ d ∈ due ⟨1⟩ (tightMount.history (struckOps ++ .wait ⟨1⟩ :: abortedOps)), d.id ≠ 1) ∧
    (∀ d ∈ due ⟨1⟩ (tightMount.history (struckOps ++ .wait ⟨1⟩ :: abortedOps)),
      d.id ≠ 5 ∧ d.block ≠ ⟨2⟩) ∧
    ((tightMount.runOps (struckOps ++ .wait ⟨1⟩ :: abortedOps)).wait ⟨1⟩).1 = .ok [⟨1⟩] := by
  have hdevice : tightDevice.Made := .create (show Device.create 32 6 = _ by decide +kernel)
  have hlog : RingLog.create tightDevice ⟨1⟩ ⟨5⟩ = .ok tightMount.log := by decide +kernel
  have hops : tightMount.chronicled.Careful struckOps := by decide +kernel
  have hall : tightMount.chronicled.Careful (struckOps ++ .wait ⟨1⟩ :: abortedOps) := by
    decide +kernel
  have hdue : due ⟨1⟩ (tightMount.history struckOps) =
      [⟨0, ⟨1⟩, true⟩, ⟨1, ⟨2⟩, false⟩, ⟨2, ⟨3⟩, true⟩] := by decide +kernel
  have hdue' : due ⟨1⟩ (tightMount.history (struckOps ++ .wait ⟨1⟩ :: abortedOps)) =
      [⟨4, ⟨1⟩, true⟩] := by decide +kernel
  have hsince : .filed ⟨1⟩ 5 ⟨2⟩ ∈
      since ⟨1⟩ (tightMount.history (struckOps ++ .wait ⟨1⟩ :: abortedOps)) := by decide +kernel
  have hunsent : ∀ reached, .submitted 5 reached ∉
      tightMount.history (struckOps ++ .wait ⟨1⟩ :: abortedOps) := by decide +kernel
  rcases Mount.waits_report hdevice hlog hops ⟨1⟩ with ⟨_, hreports, honce⟩
  rcases Mount.waits_report hdevice hlog hall ⟨1⟩ with ⟨_, hreports', _⟩
  refine ⟨hreports, hdue, ?_, by decide +kernel,
    fun d hd => honce abortedOps ⟨1⟩ hall ⟨1, ⟨2⟩, false⟩ ?_ d hd, fun d hd => ?_, ?_⟩
  · rw [hreports.wait_eq, hdue]
    rfl
  · rw [hdue]
    exact List.mem_cons_of_mem _ List.mem_cons_self
  · rcases hreports'.unsent ⟨1⟩ 5 ⟨2⟩ (mem_of_mem_since hsince) hunsent d hd with ⟨hid, hblock⟩
    exact ⟨hid, hblock hsince⟩
  · rw [hreports'.wait_eq, hdue']
    rfl

-- A block that is released too early takes its failure to the transaction that gets it next.
example :
    ((middleMount.runOps [.call (.revoke ⟨1⟩ ⟨5⟩ none), .setFailing true, .call (.commit ⟨1⟩),
      .setFailing false, .release 1, .request, .call (.revoke ⟨2⟩ ⟨6⟩ none),
      .call (.commit ⟨2⟩)]).wait ⟨2⟩).1 = .error (.logWriteFailed [⟨1⟩]) := by
  decide +kernel

end BlockJournal
