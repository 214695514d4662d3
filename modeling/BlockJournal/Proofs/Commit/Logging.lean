import BlockJournal.Proofs.Commit.Contents
import BlockJournal.Proofs.RingLog

/-!
# What a Commit Leaves on the Device

The descriptors of a commit, as they lie on the device of a circular log.

A commit takes its descriptors from blocks that were not handed out before, so it
writes over nothing that an earlier commit left, and the descriptors it closes do
not get into each other's way either. `Draft.Logging` says of a commit under way
that every descriptor it has sent lies on the device with its entries, unless the
write is known to have failed, and that no record is missing as long as none was
given up. The entries of each descriptor are kept in a function of its buffer,
since the log knows a descriptor only by that.

## Main definitions

* `RingLog.Extends`: A log that has handed out more blocks since.
* `RingLog.Holds`, `RingLog.Wrote`: A block holds a descriptor.
* `Draft.Logging`: What a commit under way has sent.

## Theorems

* `Step.logging`, `Steps.logging`: Every step sends what it should.
* `commit_logging`: What a commit has sent in the end.
-/

namespace BlockJournal

namespace RingLog

/-- A log that has handed out more blocks since, and has left alone the ones that were
    handed out before. -/
structure Extends (start log : RingLog) : Prop where
  -- The area is the same.
  first_eq : log.first = start.first
  -- The blocks of the device have the same size.
  blockSize_eq : log.device.blockSize = start.device.blockSize
  -- No block was released.
  next_le : start.next ≤ log.next
  -- The blocks handed out before hold what they held.
  read_eq : ∀ b : BlockNumber, b.toNat < start.next → log.device.read b = start.device.read b

theorem Extends.refl (log : RingLog) : log.Extends log :=
  ⟨rfl, rfl, Nat.le_refl _, fun _ _ => rfl⟩

theorem Extends.trans {log log' log'' : RingLog} (h : log.Extends log') (h' : log'.Extends log'') :
    log.Extends log'' := by
  refine ⟨h'.first_eq.trans h.first_eq, h'.blockSize_eq.trans h.blockSize_eq,
    Nat.le_trans h.next_le h'.next_le, fun b hb => ?_⟩
  rw [h'.read_eq b (Nat.lt_of_lt_of_le hb h.next_le), h.read_eq b hb]

-- A write to a block that was handed out since.
theorem Extends.write {start log log' : RingLog} (h : start.Extends log) {b : BlockNumber}
    (hb : start.next ≤ b.toNat) (data : Bytes) (hfirst : log'.first = log.first)
    (hnext : log'.next = log.next) (hdevice : log'.device = (log.device.write b data).2) :
    start.Extends log' := by
  refine ⟨hfirst.trans h.first_eq, ?_, ?_, fun other hother => ?_⟩
  · rw [hdevice, Device.blockSize_write]
    exact h.blockSize_eq
  · rw [hnext]
    exact h.next_le
  · rw [hdevice, Device.read_write_of_ne, h.read_eq other hother]
    rintro rfl
    exact Nat.lt_irrefl _ (Nat.lt_of_lt_of_le hother hb)

/-- A block of the device is read as a descriptor that says `r`. -/
def Holds (log : RingLog) (width : RecordWidth) (b : BlockNumber) (r : RevokeBlock) : Prop :=
  ∃ data, log.device.read b = .ok data ∧ data.length = log.device.blockSize ∧
    RevokeBlock.parse data width = .ok r

/-- A descriptor that says `r` was written to a block, unless the write failed. -/
def Wrote (log : RingLog) (width : RecordWidth) (b : BlockNumber) (r : RevokeBlock) : Prop :=
  b ∈ log.failed ∨ log.Holds width b r

theorem Holds.of_read {log log' : RingLog} {width : RecordWidth} {b : BlockNumber}
    {r : RevokeBlock} (h : log.Holds width b r) (hread : log'.device.read b = log.device.read b)
    (hsize : log'.device.blockSize = log.device.blockSize) : log'.Holds width b r := by
  rcases h with ⟨data, hdata, hlen, hparse⟩
  exact ⟨data, hread.trans hdata, hlen.trans hsize.symm, hparse⟩

theorem Wrote.of_read {log log' : RingLog} {width : RecordWidth} {b : BlockNumber}
    {r : RevokeBlock} (h : log.Wrote width b r) (hfailed : b ∈ log.failed → b ∈ log'.failed)
    (hread : log'.device.read b = log.device.read b)
    (hsize : log'.device.blockSize = log.device.blockSize) : log'.Wrote width b r :=
  h.imp hfailed fun h => h.of_read hread hsize

-- A descriptor that is handed to the log is on the device then, or its block is noted.
theorem Wrote.of_write {log log' : RingLog} {width : RecordWidth} {b : BlockNumber} {data : Bytes}
    {r : RevokeBlock} (hdevice : log'.device = (log.device.write b data).2)
    (hresult : b ∈ log'.failed ∨ (log.device.write b data).1 = .ok ())
    (hparse : RevokeBlock.parse data width = .ok r) : log'.Wrote width b r := by
  refine hresult.imp id fun hok => ?_
  rcases Device.read_write (Prod.ext hok hdevice.symm) with ⟨hback, hlen⟩
  refine ⟨data, hback, ?_, hparse⟩
  rw [hlen, hdevice, Device.blockSize_write]

-- Handing a descriptor to the log changes nothing about the order of its blocks.
theorem Laid.submit {log : RingLog} (h : log.Laid) (id : BufferId) (b : Buffer) :
    (LogService.submit log id b).next.Laid := by
  rcases log.next_submit id b rfl with ⟨_, hfirst, hlast, hhead, hfree, hdevice, _⟩
  refine h.congr ?_ ?_ hfirst hlast hhead hfree
  · rw [hdevice]
    exact h.fits.write _ _
  · rw [hdevice, Device.blockCount_write]

-- A log that has handed out one more block.
theorem Laid.extends_advance {log : RingLog} (h : log.Laid) (hfree : 0 < log.free) :
    log.Extends log.advance :=
  ⟨rfl, rfl, by rw [(h.advance hfree).2.1]; exact Nat.le_succ _, fun _ _ => rfl⟩

end RingLog

namespace Mount

-- The log is full, or it hands out its next block.
theorem request_ring (m : Mount RingLog) :
    (m.log.free = 0 ∧ ∃ m', m.request = (none, m') ∧ m'.log = m.log) ∨
    (0 < m.log.free ∧ ∃ m', m.request = (some m.store.buffers.size, m') ∧
      m'.log = m.log.advance ∧ m'.store = (m.store.detached (BlockNumber.ofNat m.log.head)
        m.log.device.blockSize).2) := by
  by_cases hfree : m.log.free = 0
  · left
    refine ⟨hfree, ?_⟩
    simp only [request, LogService.request, hfree, if_true]
    exact ⟨_, rfl, rfl⟩
  · right
    refine ⟨Nat.pos_of_ne_zero hfree, ?_⟩
    simp only [request, LogService.request, hfree, if_false]
    exact ⟨_, rfl, rfl, rfl⟩

/-- The log refuses to hand out a block exactly if none is free. -/
theorem request_eq_none_iff (m : Mount RingLog) : m.request.1 = none ↔ m.log.free = 0 := by
  rcases m.request_ring with ⟨hfree, m', hnone, _⟩ | ⟨hfree, m', hsome, _⟩
  · rw [hnone]
    exact iff_of_true rfl hfree
  · rw [hsome]
    exact iff_of_false (by simp only [reduceCtorEq, not_false_eq_true]) (Nat.ne_of_gt hfree)

theorem free_of_request_none {m m' : Mount RingLog} (h : m.request = (none, m')) :
    m.log.free = 0 :=
  m.request_eq_none_iff.mp (congrArg Prod.fst h)

-- Filing a descriptor leaves its buffer alone.
theorem file_ring (m : Mount RingLog) (tid : Tid) (id : BufferId) :
    (m.file tid id).log = { m.log with pending := m.log.pending ++ [(tid, id)] } ∧
      (m.file tid id).store = m.store :=
  ⟨rfl, rfl⟩

-- A descriptor that is handed to the log is written, or its block is noted.
theorem submit_ring (m : Mount RingLog) (id : BufferId) :
    (m.submit id).store = m.store ∧ (m.submit id).log.pending = m.log.pending ∧
    (m.submit id).log.first = m.log.first ∧ (m.submit id).log.last = m.log.last ∧
    (m.submit id).log.head = m.log.head ∧ (m.submit id).log.free = m.log.free ∧
    (m.submit id).log.device = (m.log.device.write (m.store.get id).block (m.store.get id).data).2 ∧
    (∀ b ∈ m.log.failed, b ∈ (m.submit id).log.failed) ∧
    ((m.store.get id).block ∈ (m.submit id).log.failed ∨
      (m.log.device.write (m.store.get id).block (m.store.get id).data).1 = .ok ()) :=
  ⟨store_absorb m _, m.log.next_submit id _ (log_submit m id).symm⟩

end Mount

/-- A descriptor that was opened and filed, on a block that was not handed out before
    the commit. -/
structure OpenDescriptor.Started (desc : OpenDescriptor) (start : RingLog) (tid : Tid)
    (m : Mount RingLog) : Prop where
  -- The log knows of it.
  filed : (tid, desc.buffer) ∈ m.log.pending
  -- It was not sent.
  unsent : ¬ RingLog.Sent m.store desc.buffer
  -- It has its header.
  header : Header.read (m.store.get desc.buffer).data = .ok ⟨BlockKind.revoke.code, tid⟩
  -- The commit was handed its block.
  le : start.next ≤ (m.store.get desc.buffer).block.toNat
  -- Its block was handed out.
  lt : (m.store.get desc.buffer).block.toNat < m.log.next

namespace Draft

open RingLog

/-- The block of the descriptor being filled, or the one to be handed out next. What was
    sent lies below it. -/
def front (d : Draft RingLog) : Nat :=
  match d.current with
  | some desc => (d.mount.store.get desc.buffer).block.toNat
  | none => d.mount.log.next

/-- What a commit under way, which began with the log `start`, has sent. The descriptor
    in a buffer has the entries `entries`, and the commit is done with the records
    `done`. -/
structure Logging (start : RingLog) (tid : Tid) (width : RecordWidth)
    (entries : BufferId → List BlockNumber) (done : List Record) (d : Draft RingLog) : Prop where
  -- The log is in order.
  laid : d.mount.log.Laid
  -- Nothing from before the commit was written over.
  grown : start.Extends d.mount.log
  -- Every descriptor that was filed has a block of its own.
  count : start.next + d.mount.log.pending.length ≤ d.mount.log.next
  -- The descriptors that were filed are this commit's, and they exist.
  filed : ∀ entry ∈ d.mount.log.pending, entry.1 = tid ∧ entry.2 < d.mount.store.buffers.size
  -- The descriptor being filled was started.
  started : ∀ desc, d.current = some desc → desc.Started start tid d.mount
  -- What was sent was written.
  sent : ∀ id, (tid, id) ∈ d.mount.log.pending → Sent d.mount.store id →
    d.mount.log.Wrote width (d.mount.store.get id).block ⟨tid, entries id⟩ ∧
      (d.mount.store.get id).block.toNat < d.front
  -- The entries are blocks of records.
  mem : ∀ id, (tid, id) ∈ d.mount.log.pending → Sent d.mount.store id →
    ∀ b ∈ entries id, b ∈ done.map Record.block
  -- Unless a record was given up, every record is in a descriptor.
  kept : d.stats.dropped = 0 → ∀ b ∈ done.map Record.block,
    (∃ desc, d.current = some desc ∧ b ∈ desc.blocks) ∨
      ∃ id, (tid, id) ∈ d.mount.log.pending ∧ Sent d.mount.store id ∧ b ∈ entries id

variable {start : RingLog} {tid : Tid} {width : RecordWidth} {entries : BufferId → List BlockNumber}
  {done rs : List Record} {d d' : Draft RingLog}

-- The front of a commit is a block that was handed out, or the one after them.
theorem Logging.front_le (hd : d.Logging start tid width entries done) :
    d.front ≤ d.mount.log.next := by
  unfold front
  cases hcur : d.current with
  | none => exact Nat.le_refl _
  | some desc => exact Nat.le_of_lt (hd.started desc hcur).lt

-- A step that sends nothing and asks for nothing: the descriptor being filled is the
-- same or is given up, and a record that is not given up goes into it.
theorem Logging.update (hd : d.Logging start tid width entries done)
    (hlog : d'.mount.log = d.mount.log)
    (hsize : d'.mount.store.buffers.size = d.mount.store.buffers.size)
    (hsent : ∀ id, Sent d'.mount.store id ↔ Sent d.mount.store id)
    (hblock : ∀ id, (d'.mount.store.get id).block = (d.mount.store.get id).block)
    (hcurrent : ∀ desc', d'.current = some desc' → d'.mount.store = d.mount.store ∧
      ∃ desc, d.current = some desc ∧ desc'.buffer = desc.buffer)
    (hkept : d'.stats.dropped = 0 → d.stats.dropped = 0 ∧
      ∀ b, b ∈ rs.map Record.block ∨ (∃ desc, d.current = some desc ∧ b ∈ desc.blocks) →
        ∃ desc', d'.current = some desc' ∧ b ∈ desc'.blocks) :
    d'.Logging start tid width entries (done ++ rs) := by
  have hfront : d.front ≤ d'.front := by
    cases hcur : d'.current with
    | none =>
        have hend : d'.front = d.mount.log.next := by simp only [front, hcur, hlog]
        rw [hend]
        exact hd.front_le
    | some desc' =>
        rcases hcurrent desc' hcur with ⟨_, desc, hold, hbuffer⟩
        simp only [front, hcur, hold, hbuffer, hblock, Nat.le_refl]
  refine ⟨hlog ▸ hd.laid, hlog ▸ hd.grown, hlog ▸ hd.count, fun entry hentry => ?_,
    fun desc' hdesc => ?_, fun id hid hs => ?_, fun id hid hs b hb => ?_, fun hdropped b hb => ?_⟩
  · rw [hlog] at hentry
    rw [hsize]
    exact hd.filed entry hentry
  · rcases hcurrent desc' hdesc with ⟨hstore, desc, hold, hbuffer⟩
    have hstarted := hd.started desc hold
    refine ⟨?_, ?_, ?_, ?_, ?_⟩
    · rw [hlog, hbuffer]
      exact hstarted.filed
    · rw [hstore, hbuffer]
      exact hstarted.unsent
    · rw [hstore, hbuffer]
      exact hstarted.header
    · rw [hstore, hbuffer]
      exact hstarted.le
    · rw [hlog, hstore, hbuffer]
      exact hstarted.lt
  · rw [hlog] at hid ⊢
    rw [hsent] at hs
    rw [hblock]
    rcases hd.sent id hid hs with ⟨hwrote, hlt⟩
    exact ⟨hwrote, Nat.lt_of_lt_of_le hlt hfront⟩
  · rw [hlog] at hid
    rw [hsent] at hs
    rw [List.map_append]
    exact List.mem_append_left _ (hd.mem id hid hs b hb)
  · rcases hkept hdropped with ⟨hbefore, hthere⟩
    rw [List.map_append, List.mem_append] at hb
    rcases hb with hb | hb
    · rcases hd.kept hbefore b hb with hcur | ⟨id, hid, hs, hb⟩
      · exact Or.inl (hthere b (Or.inr hcur))
      · exact Or.inr ⟨id, hlog ▸ hid, (hsent id).mpr hs, hb⟩
    · exact Or.inl (hthere b (Or.inl hb))

-- A descriptor is asked for: the log hands out a block, and the store has a buffer more.
-- `filed` says whether the descriptor is filed under the transaction as well.
theorem Logging.request (hd : d.Logging start tid width entries done) (hcur : d.current = none)
    (hfree : 0 < d.mount.log.free) {filed : List (Tid × BufferId)}
    (hlog : d'.mount.log =
      { d.mount.log.advance with pending := d.mount.log.pending ++ filed })
    (hsize : d.mount.store.buffers.size < d'.mount.store.buffers.size)
    (hget : ∀ id, id < d.mount.store.buffers.size → d'.mount.store.get id = d.mount.store.get id)
    (hfiled : filed = [] ∨ filed = [(tid, d.mount.store.buffers.size)])
    (hunsent : ¬ Sent d'.mount.store d.mount.store.buffers.size)
    (hstarted : ∀ desc, d'.current = some desc → desc.Started start tid d'.mount ∧
      (d'.mount.store.get desc.buffer).block.toNat = d.mount.log.next)
    (hdropped : d'.stats.dropped = d.stats.dropped) :
    d'.Logging start tid width entries done := by
  rcases hd.laid.advance hfree with ⟨hlaid, hnext, _⟩
  have hnext' : d'.mount.log.next = d.mount.log.next + 1 := by rw [hlog]; exact hnext
  have hdevice : d'.mount.log.device = d.mount.log.device := by rw [hlog]; rfl
  have hfailed : d'.mount.log.failed = d.mount.log.failed := by rw [hlog]; rfl
  have hfront : d.mount.log.next ≤ d'.front := by
    cases hcur' : d'.current with
    | none =>
        simp only [front, hcur', hnext']
        exact Nat.le_succ _
    | some desc =>
        simp only [front, hcur']
        exact Nat.le_of_eq (hstarted desc hcur').2.symm
  -- What is filed and sent was there before.
  have hold : ∀ id, (tid, id) ∈ d'.mount.log.pending → Sent d'.mount.store id →
      (tid, id) ∈ d.mount.log.pending ∧ Sent d.mount.store id ∧
        d'.mount.store.get id = d.mount.store.get id := by
    intro id hid hs
    have hid' : (tid, id) ∈ d.mount.log.pending ++ filed := by
      rw [hlog] at hid
      exact hid
    rcases List.mem_append.mp hid' with hid' | hid'
    · have hsame := hget id (hd.filed _ hid').2
      refine ⟨hid', ?_, hsame⟩
      rw [Sent, ← hsame]
      exact hs
    · rcases hfiled with rfl | rfl
      · exact absurd hid' List.not_mem_nil
      · rw [List.mem_singleton, Prod.mk.injEq] at hid'
        exact absurd (hid'.2 ▸ hs) hunsent
  refine ⟨?_, ?_, ?_, fun entry hentry => ?_, fun desc hdesc => (hstarted desc hdesc).1,
    fun id hid hs => ?_, fun id hid hs => ?_, fun hnone b hb => ?_⟩
  · exact hlaid.congr (by rw [hdevice]; exact hd.laid.fits) (by rw [hdevice]; rfl) (by rw [hlog])
      (by rw [hlog]) (by rw [hlog]) (by rw [hlog])
  · have hgrown := hd.grown.trans (hd.laid.extends_advance hfree)
    rw [hlog]
    exact ⟨hgrown.first_eq, hgrown.blockSize_eq, hgrown.next_le, hgrown.read_eq⟩
  · have hcount := hd.count
    have hlen : filed.length ≤ 1 := by
      rcases hfiled with rfl | rfl
      · exact Nat.zero_le 1
      · exact Nat.le_refl 1
    rw [hnext', hlog, List.length_append]
    omega
  · rw [hlog] at hentry
    rcases List.mem_append.mp hentry with hentry | hentry
    · rcases hd.filed entry hentry with ⟨htid, hlt⟩
      exact ⟨htid, Nat.lt_trans hlt hsize⟩
    · rcases hfiled with rfl | rfl
      · exact absurd hentry List.not_mem_nil
      · rw [List.mem_singleton.mp hentry]
        exact ⟨rfl, hsize⟩
  · rcases hold id hid hs with ⟨hid', hs', hsame⟩
    rcases hd.sent id hid' hs' with ⟨hwrote, hlt⟩
    rw [hsame]
    refine ⟨hwrote.of_read (fun h => hfailed ▸ h) (by rw [hdevice]) (by rw [hdevice]), ?_⟩
    simp only [front, hcur] at hlt
    exact Nat.lt_of_lt_of_le hlt hfront
  · rcases hold id hid hs with ⟨hid', hs', _⟩
    exact hd.mem id hid' hs'
  · rcases hd.kept (hdropped ▸ hnone) b hb with ⟨desc, hdesc, _⟩ | ⟨id, hid, hs, hb⟩
    · rw [hcur] at hdesc
      exact absurd hdesc (by simp only [reduceCtorEq, not_false_eq_true])
    · refine Or.inr ⟨id, ?_, ?_, hb⟩
      · rw [hlog]
        exact List.mem_append_left _ hid
      · rw [Sent, hget id (hd.filed _ hid).2]
        exact hs

-- The descriptor being filled is closed and handed to the log.
theorem Logging.submit (hd : d.Logging start tid width entries done) {desc : OpenDescriptor}
    (hcur : d.current = some desc) (hfilling : desc.Filling width d.mount.store done)
    {data : Bytes} (hclose : desc.close (d.mount.store.get desc.buffer).data = (.ok (), data))
    {m : Mount RingLog} (hlog : m.log = d.mount.log)
    (hstore : m.store = d.mount.store.modify desc.buffer
      (fun b => ((b.setData data).setLogWrite true).setDirty false))
    (hmount : d'.mount = m.submit desc.buffer) (hcur' : d'.current = none)
    (hdropped : d'.stats.dropped = d.stats.dropped) :
    d'.Logging start tid width
      (fun id => if id = desc.buffer then desc.blocks.reverse else entries id) done := by
  have hstarted := hd.started desc hcur
  rcases m.submit_ring desc.buffer with
    ⟨hstore', hpending, hfirst, hlast, _, hfree, hdevice, hfailed, hresult⟩
  rw [← hmount, hlog] at hpending hfirst hlast hfree hdevice hfailed hresult
  rw [← hmount] at hstore'
  -- The buffer holds the closed descriptor of the same block, and the others are as before.
  have hself : m.store.get desc.buffer =
      ((((d.mount.store.get desc.buffer).setData data).setLogWrite true).setDirty false) := by
    rw [hstore, Store.get_modify, if_pos ⟨rfl, hfilling.lt_size⟩]
  have hother : ∀ id, id ≠ desc.buffer → m.store.get id = d.mount.store.get id := by
    intro id hid
    rw [hstore, Store.get_modify, if_neg fun h => hid h.1.symm]
  have hblock : (m.store.get desc.buffer).block = (d.mount.store.get desc.buffer).block := by
    rw [hself]
    rfl
  have hdata : (m.store.get desc.buffer).data = data := by
    rw [hself]
    rfl
  rw [hblock, hdata] at hdevice hresult
  have hnext : d'.mount.log.next = d.mount.log.next := by rw [next, next, hlast, hfree]
  have hfront : d'.front = d.mount.log.next := by simp only [front, hcur', hnext]
  have hbound : d.front = (d.mount.store.get desc.buffer).block.toNat := by
    simp only [front, hcur]
  have hsize : d'.mount.log.device.blockSize = d.mount.log.device.blockSize := by
    rw [hdevice, Device.blockSize_write]
  have hread : ∀ b : BlockNumber, b.toNat < d.front →
      d'.mount.log.device.read b = d.mount.log.device.read b := by
    intro b hb
    rw [hdevice]
    refine Device.read_write_of_ne _ data ?_
    rintro rfl
    rw [hbound] at hb
    exact Nat.lt_irrefl _ hb
  refine ⟨?_, hd.grown.write hstarted.le data hfirst hnext hdevice, ?_, fun entry hentry => ?_,
    fun desc' hdesc => ?_, fun id hid hs => ?_, fun id hid hs b hb => ?_, fun hnone b hb => ?_⟩
  · rw [hmount, Mount.log_submit, hlog]
    exact hd.laid.submit desc.buffer _
  · rw [hpending, hnext]
    exact hd.count
  · rw [hpending] at hentry
    rw [hstore', hstore, Store.size_modify]
    exact hd.filed entry hentry
  · rw [hcur'] at hdesc
    exact absurd hdesc (by simp only [reduceCtorEq, not_false_eq_true])
  · rw [hpending] at hid
    rw [hstore'] at hs ⊢
    rw [hfront]
    by_cases hself' : id = desc.buffer
    · subst hself'
      rw [if_pos rfl, hblock]
      have hparse := hfilling.parse_close hclose hstarted.header
      exact ⟨.of_write hdevice hresult hparse, hstarted.lt⟩
    · rw [if_neg hself', hother id hself']
      rw [Sent, hother id hself'] at hs
      rcases hd.sent id hid hs with ⟨hwrote, hlt⟩
      exact ⟨hwrote.of_read (hfailed _) (hread _ hlt) hsize, Nat.lt_of_lt_of_le hlt hd.front_le⟩
  · rw [hpending] at hid
    rw [hstore'] at hs
    by_cases hself' : id = desc.buffer
    · rw [if_pos hself', List.mem_reverse] at hb
      exact hfilling.mem b hb
    · rw [if_neg hself'] at hb
      rw [Sent, hother id hself'] at hs
      exact hd.mem id hid hs b hb
  · rw [hpending, hstore']
    rcases hd.kept (hdropped ▸ hnone) b hb with ⟨old, hold, hb⟩ | ⟨id, hid, hs, hb⟩
    · rw [hcur, Option.some.injEq] at hold
      refine Or.inr ⟨desc.buffer, hstarted.filed, ?_, ?_⟩
      · rw [Sent, hself]
        rfl
      · rw [if_pos rfl, List.mem_reverse, hold]
        exact hb
    · -- What was sent before is in another buffer.
      have hne : id ≠ desc.buffer := by
        rintro rfl
        exact hstarted.unsent hs
      refine Or.inr ⟨id, hid, ?_, ?_⟩
      · rw [Sent, hother id hne]
        exact hs
      · rw [if_neg hne]
        exact hb

-- Storing contents in a buffer sends nothing and moves nothing.
theorem sent_setData (store : Store) (buffer id : BufferId) (data : Bytes) :
    (Sent (store.modify buffer (·.setData data)) id ↔ Sent store id) ∧
      ((store.modify buffer (·.setData data)).get id).block = (store.get id).block := by
  unfold Sent
  rw [Store.get_modify]
  split
  · exact ⟨Iff.rfl, rfl⟩
  · exact ⟨Iff.rfl, rfl⟩

-- A descriptor that was asked for: the log has handed out a block, and the buffer of the
-- block is new.
theorem request_eq_some {m m' : Mount RingLog} {id : BufferId} (h : m.request = (some id, m')) :
    0 < m.log.free ∧ id = m.store.buffers.size ∧ m'.log = m.log.advance ∧
      m'.store.buffers.size = m.store.buffers.size + 1 ∧
      m'.store.get id = Buffer.detached (BlockNumber.ofNat m.log.head) m.log.device.blockSize ∧
      ∀ other, other < m.store.buffers.size → m'.store.get other = m.store.get other := by
  rcases m.request_ring with ⟨_, _, hnone, _⟩ | ⟨hfree, m'', hsome, hlog, hstore⟩
  · rw [h, Prod.mk.injEq] at hnone
    exact absurd hnone.1 (by simp only [reduceCtorEq, not_false_eq_true])
  · rw [h, Prod.mk.injEq, Option.some.injEq] at hsome
    rcases hsome with ⟨rfl, rfl⟩
    have hget := fun other => Store.get_add m.store
      (Buffer.detached (BlockNumber.ofNat m.log.head) m.log.device.blockSize) other
    refine ⟨hfree, rfl, hlog, ?_, ?_, fun other hother => ?_⟩
    · rw [hstore]
      exact Array.size_push _
    · rw [hstore, Store.detached, hget, if_pos rfl]
    · rw [hstore, Store.detached, hget, if_neg (Nat.ne_of_lt hother)]

-- The descriptor that was asked for is not filed, since its header could not be stored.
theorem Logging.unopened (hd : d.Logging start tid width entries done) (hcur : d.current = none)
    {id : BufferId} {m : Mount RingLog} (hrequest : d.mount.request = (some id, m)) (data : Bytes)
    (e : Event) :
    ({ d with mount := (m.modifyBuffer id (·.setData data)).emit e } : Draft RingLog).Logging
      start tid width entries done := by
  rcases request_eq_some hrequest with ⟨hfree, rfl, hlog, hsize, hnew, hold⟩
  have hdata := fun other => sent_setData m.store d.mount.store.buffers.size other data
  refine hd.request hcur hfree ?_ ?_ (fun other hother => ?_) (Or.inl rfl) ?_ ?_ rfl
  · rw [List.append_nil]
    exact hlog
  · change _ < (m.store.modify _ _).buffers.size
    rw [Store.size_modify, hsize]
    exact Nat.lt_succ_self _
  · change (m.store.modify _ _).get other = _
    rw [Store.get_modify, if_neg (fun h => absurd h.1 (Nat.ne_of_gt hother)), hold other hother]
  · change ¬ Sent (m.store.modify _ _) _
    rw [(hdata _).1, Sent, hnew]
    exact Bool.false_ne_true
  · intro desc hdesc
    change d.current = some desc at hdesc
    rw [hcur] at hdesc
    exact absurd hdesc (by simp only [reduceCtorEq, not_false_eq_true])

-- The descriptor that was asked for has its header and is filed.
theorem Logging.opened (hd : d.Logging start tid width entries done) (hcur : d.current = none)
    {id : BufferId} {m m' : Mount RingLog} (hrequest : d.mount.request = (some id, m))
    {data : Bytes} (hopen : openRevoke (m.store.get id).data tid = (.ok (), data))
    (hfile : (m.modifyBuffer id (·.setData data)).file tid id = m') (capacity room : Nat) :
    ({ d with mount := m', current := some ⟨id, capacity, room, width, 0, []⟩ } :
      Draft RingLog).Logging start tid width entries done := by
  rcases request_eq_some hrequest with ⟨hfree, rfl, hlog, hsize, hnew, hold⟩
  let id := d.mount.store.buffers.size
  have hdata := fun other => sent_setData m.store id other data
  have hlog' : m'.log = { m.log with pending := m.log.pending ++ [(tid, id)] } := by
    rw [← hfile]
    exact ((m.modifyBuffer id _).file_ring tid id).1
  have hstore : m'.store = m.store.modify id (·.setData data) := by
    rw [← hfile]
    exact ((m.modifyBuffer id _).file_ring tid id).2
  have hsize' : m'.store.buffers.size = id + 1 := by rw [hstore, Store.size_modify, hsize]
  have hself : m'.store.get id = (m.store.get id).setData data := by
    rw [hstore, Store.get_modify, if_pos ⟨rfl, by rw [hsize]; exact Nat.lt_succ_self _⟩]
  have hunsent : ¬ Sent m'.store id := by
    rw [hstore, (hdata id).1, Sent, hnew]
    exact Bool.false_ne_true
  have hblock : (m'.store.get id).block.toNat = d.mount.log.next := by
    rw [hself, hnew]
    exact (hd.laid.advance hfree).2.2
  refine hd.request hcur hfree ?_ ?_ (fun other hother => ?_) (Or.inr rfl) hunsent
    (fun desc hdesc => ?_) rfl
  · change m'.log = _
    rw [hlog', hlog]
    rfl
  · change _ < m'.store.buffers.size
    rw [hsize']
    exact Nat.lt_succ_self _
  · change m'.store.get other = _
    rw [hstore, Store.get_modify, if_neg (fun h => absurd h.1 (Nat.ne_of_gt hother)),
      hold other hother]
  · -- It was started: it is filed, it has its header, and its block is the newest.
    rw [← Option.some.inj hdesc]
    refine ⟨⟨?_, hunsent, ?_, ?_, ?_⟩, hblock⟩
    · change (tid, id) ∈ m'.log.pending
      rw [hlog']
      exact List.mem_append_right _ (List.mem_singleton.mpr rfl)
    · change Header.read (m'.store.get id).data = _
      rw [hself]
      exact (openRevoke_eq_ok hopen).2
    · change _ ≤ (m'.store.get id).block.toNat
      rw [hblock]
      exact hd.grown.next_le
    · change (m'.store.get id).block.toNat < m'.log.next
      have hnext : m'.log.next = d.mount.log.next + 1 := by
        rw [hlog', hlog]
        exact (hd.laid.advance hfree).2.1
      rw [hblock, hnext]
      exact Nat.lt_succ_self _

-- Giving up a descriptor gives up its records, so if none was given up it had none.
theorem entries_given_up {desc : OpenDescriptor} {s : Store} (h : desc.Filling width s done)
    (hcur : d.current = some desc) {dropped : Nat} (hnone : dropped + desc.entries = 0)
    {P : BlockNumber → Prop} :
    dropped = 0 ∧ ∀ b, b ∈ ([] : List Record).map Record.block ∨
      (∃ desc, d.current = some desc ∧ b ∈ desc.blocks) → P b := by
  refine ⟨by omega, fun b hb => ?_⟩
  have hempty : desc.blocks = [] := by
    apply List.eq_nil_of_length_eq_zero
    rw [← h.entries_eq]
    omega
  rcases hb with hb | ⟨old, hold, hb⟩
  · exact absurd hb List.not_mem_nil
  · rw [hcur, Option.some.injEq] at hold
    rw [← hold, hempty] at hb
    exact absurd hb List.not_mem_nil

/-- Every step sends what it should. -/
theorem Step.logging (h : Step tid width d rs d') (hd : d.Logging start tid width entries done)
    (hfilling : d.Filling width done) :
    ∃ entries', d'.Logging start tid width entries' (done ++ rs) := by
  cases h with
  | count =>
      refine ⟨entries, hd.update rfl rfl (fun _ => Iff.rfl) (fun _ => rfl)
        (fun desc' hdesc => ⟨rfl, desc', hdesc, rfl⟩) fun hnone => ⟨hnone, fun b hb => ?_⟩⟩
      exact hb.resolve_left List.not_mem_nil
  | drop r _ =>
      refine ⟨entries, hd.update rfl rfl (fun _ => Iff.rfl) (fun _ => rfl)
        (fun desc' hdesc => ⟨rfl, desc', hdesc, rfl⟩) fun hnone => ?_⟩
      exact absurd hnone (Nat.succ_ne_zero _)
  | refused m e hcur hrequest =>
      rcases d.mount.request_ring with ⟨_, m', hnone, hlog⟩ | ⟨_, m', hsome, _⟩
      · have hstore := Mount.store_of_core (Mount.core_request_none hrequest)
        rw [hrequest, Prod.mk.injEq] at hnone
        rw [← hnone.2] at hlog
        refine ⟨entries, hd.update hlog (congrArg (fun s => s.buffers.size) hstore)
          (fun id => ?_) (fun id => ?_) (fun desc' hdesc => ?_) fun hdropped => ⟨hdropped, ?_⟩⟩
        · change Sent m.store id ↔ _
          rw [hstore]
        · change (m.store.get id).block = _
          rw [hstore]
        · exact ⟨hstore, desc', hdesc, rfl⟩
        · exact fun b hb => hb.resolve_left List.not_mem_nil
      · rw [hrequest, Prod.mk.injEq] at hsome
        exact absurd hsome.1 (by simp only [reduceCtorEq, not_false_eq_true])
  | unopened id m data cause e hcur hrequest hopen =>
      rw [List.append_nil]
      exact ⟨entries, hd.unopened hcur hrequest data e⟩
  | opened id m m' data hcur hrequest hopen hfile =>
      rw [List.append_nil]
      exact ⟨entries, hd.opened hcur hrequest hopen hfile _ _⟩
  | unfit desc r cause e hcur hroom hadd =>
      refine ⟨entries, hd.update rfl rfl (fun _ => Iff.rfl) (fun _ => rfl)
        (fun desc' hdesc => ⟨rfl, desc', hdesc, rfl⟩) fun hnone => ?_⟩
      exact absurd hnone (Nat.succ_ne_zero _)
  | added desc desc' r hcur hroom hadd =>
      rcases OpenDescriptor.add_eq_ok hadd with ⟨_, rfl⟩
      refine ⟨entries, hd.update rfl rfl (fun _ => Iff.rfl) (fun _ => rfl)
        (fun new hnew => ⟨rfl, desc, hcur, ?_⟩) fun hnone => ⟨hnone, fun b hb => ⟨_, rfl, ?_⟩⟩⟩
      · rw [← Option.some.inj hnew]
      · rcases hb with hb | ⟨old, hold, hb⟩
        · rw [List.map_singleton, List.mem_singleton] at hb
          rw [hb]
          exact List.mem_cons_self
        · rw [hcur, Option.some.injEq] at hold
          rw [hold]
          exact List.mem_cons_of_mem _ hb
  | lost desc e hcur habort =>
      refine ⟨entries, hd.update rfl rfl (fun _ => Iff.rfl) (fun _ => rfl)
        (fun desc' hdesc => ?_) fun hnone => ?_⟩
      · exact absurd hdesc (by simp only [Draft.drop, reduceCtorEq, not_false_eq_true])
      · exact entries_given_up (hfilling desc hcur) hcur hnone
  | unclosed desc data cause e hcur habort hclose =>
      have hdata := fun other => sent_setData d.mount.store desc.buffer other data
      refine ⟨entries, hd.update rfl (Store.size_modify _ _ _) (fun id => (hdata id).1)
        (fun id => (hdata id).2) (fun desc' hdesc => ?_) fun hnone => ?_⟩
      · exact absurd hdesc (by simp only [Draft.drop, reduceCtorEq, not_false_eq_true])
      · exact entries_given_up (hfilling desc hcur) hcur hnone
  | submitted desc data e hcur habort hclose =>
      rw [List.append_nil]
      exact ⟨_, hd.submit hcur (hfilling desc hcur) hclose (m := (d.mount.modifyBuffer desc.buffer
        (fun b => ((b.setData data).setLogWrite true).setDirty false)).emit e) rfl rfl rfl rfl rfl⟩

theorem Steps.logging (h : Steps tid width d rs d') (hd : d.Logging start tid width entries done)
    (hfilling : d.Filling width done) :
    ∃ entries', d'.Logging start tid width entries' (done ++ rs) := by
  induction h with
  | refl =>
      rw [List.append_nil]
      exact ⟨entries, hd⟩
  | snoc hsteps hstep ih =>
      rcases ih with ⟨entries', hd'⟩
      rw [← List.append_assoc]
      exact hstep.logging hd' (hsteps.filling hfilling)

end Draft

namespace Mount

/-- A commit has sent descriptors that list the records of the table, unless it gave
    one up. -/
theorem commit_logging (m : Mount RingLog) (hlaid : m.log.Laid) (hpending : m.log.pending = [])
    (tid : Tid) :
    ∃ d entries, Draft.Logging m.log tid m.journal.config.recordWidth entries
        m.journal.table.records d ∧
      d.current = none ∧ (m.commit tid).1 = d.stats ∧ (m.commit tid).2.log = d.mount.log ∧
      (m.commit tid).2.store = d.mount.store := by
  rcases Draft.steps_commit m tid with ⟨d, e, hsteps, hcur, heq⟩
  have hbegin : Draft.Logging m.log tid m.journal.config.recordWidth (fun _ => []) []
      (⟨m.drainTable.2, {}, none⟩ : Draft RingLog) := by
    have hnone : ∀ {entry}, entry ∉ m.drainTable.2.log.pending := by
      intro entry hentry
      have hempty : m.drainTable.2.log.pending = [] := hpending
      rw [hempty] at hentry
      exact absurd hentry List.not_mem_nil
    refine ⟨hlaid, .refl _, ?_, fun entry h => absurd h hnone, fun desc h => ?_,
      fun id h => absurd h hnone, fun id h => absurd h hnone, fun _ b hb => ?_⟩
    · change m.log.next + m.log.pending.length ≤ m.log.next
      rw [hpending]
      exact Nat.le_refl _
    · exact absurd h (by simp only [reduceCtorEq, not_false_eq_true])
    · exact absurd hb List.not_mem_nil
  rcases hsteps.logging hbegin (Draft.filling_of_none rfl []) with ⟨entries, hd⟩
  rw [heq]
  exact ⟨d, entries, hd, hcur, rfl, rfl, rfl⟩

end Mount

end BlockJournal
