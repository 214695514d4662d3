import BlockJournal.Proofs.Commit.Accounting
import BlockJournal.Proofs.DescriptorCodec

/-!
# How a Commit Packs its Descriptors

The descriptors of a commit over a log in good health.

A log in good health hands out descriptors of one size and does nothing else: it
refuses no request, cuts nothing short, and aborts nothing. Then no record is
dropped, and a descriptor is closed only once it is full, so all descriptors but the
last have as many entries as fit. `Draft.Packed` says this of a commit under way. A
full descriptor is closed when there is another record to write, and not before, so a
descriptor that is exactly full is not followed by an empty one.

What is in the descriptors, and in which order, is known from `Mount.Account`, which
holds over any log. That nothing is missing follows from the counts.

## Main definitions

* `LogService.Healthy`: A log in good health.
* `OpenDescriptor.Sized`: A descriptor of the size that the log hands out.
* `Draft.Smooth`: A commit that nothing has gone wrong with.
* `Draft.Packed`: One that has handed only full descriptors to the log.
* `Draft.Busy`: One whose descriptor has an entry.
* `Tiled`: Full descriptors, and one more at the end.
* `Mount.Packing`: How a commit packs the records of the table.

## Theorems

* `Smooth.closeCurrent`: Closing a descriptor.
* `Packed.makeRoom`, `Packed.openNew`, `Packed.append`: The parts of writing a record.
* `Packed.write`, `Packed.foldl`: Writing a record, and some records.
* `Tiled.length_eq`: The number of descriptors.
* `packing_of_isMap`, `commit_packs`: The descriptors of a commit.
-/

namespace BlockJournal

/-- A log in good health, as long as its state is a good one. -/
structure LogService.Healthy (σ : Type) [LogService σ] (good : σ → Prop) (size : Nat) : Prop where
  -- Every request gets a descriptor of this size.
  request : ∀ log, good log → (∃ block, (LogService.request log).value = some (block, size)) ∧
    (LogService.request log).abort = false ∧ good (LogService.request log).next
  -- No descriptor is cut short.
  file : ∀ log tid id b, good log → (LogService.file log tid id b).value = none ∧
    (LogService.file log tid id b).abort = false ∧ good (LogService.file log tid id b).next
  -- The journal is not aborted when a descriptor is written, either.
  submit : ∀ log id b, good log → (LogService.submit log id b).abort = false ∧
    good (LogService.submit log id b).next

namespace RecordWidth

/-- Another entry has room as long as there are fewer than a descriptor holds. -/
theorem lt_entriesPerBlock_iff (width : RecordWidth) {size n : Nat}
    (hsize : revokeHeaderSize ≤ size) :
    n < width.entriesPerBlock size ↔ revokeHeaderSize + width.bytes * n + width.bytes ≤ size := by
  rw [entriesPerBlock, Nat.lt_iff_add_one_le, Nat.le_div_iff_mul_le width.bytes_pos, Nat.mul_comm,
    Nat.mul_succ]
  omega

-- A descriptor that has room for an entry holds one.
theorem entriesPerBlock_pos {width : RecordWidth} {size : Nat}
    (hsize : revokeHeaderSize + width.bytes ≤ size) : 0 < width.entriesPerBlock size :=
  (width.lt_entriesPerBlock_iff (Nat.le_trans (Nat.le_add_right _ _) hsize)).mpr hsize

-- As many entries as a descriptor holds have room in it.
theorem used_le_of_le_entriesPerBlock (width : RecordWidth) {size n : Nat}
    (hsize : revokeHeaderSize ≤ size) (hn : n ≤ width.entriesPerBlock size) :
    revokeHeaderSize + width.bytes * n ≤ size := by
  have hmul := Nat.mul_le_mul_left width.bytes hn
  have hle := Nat.mul_div_le (size - revokeHeaderSize) width.bytes
  rw [entriesPerBlock] at hmul
  omega

end RecordWidth

namespace Mount

variable {σ : Type} [LogService σ] {good : σ → Prop} {size : Nat}

-- What a log in good health does to the mount.
theorem request_healthy (h : LogService.Healthy σ good size) {m : Mount (Observed σ)}
    (hgood : good m.log.log) (hlive : m.journal.aborted = false) :
    ∃ m' block, m.request = (some m.store.buffers.size, m') ∧
      m'.store = (m.store.detached block size).2 ∧ good m'.log.log ∧
      m'.journal.aborted = false := by
  rcases h.request m.log.log hgood with ⟨⟨block, hvalue⟩, habort, hnext⟩
  have hvalue' : (LogService.request m.log).value = some (block, size) := hvalue
  have habort' : (LogService.request m.log).abort = false := habort
  refine ⟨{ m.absorb (LogService.request m.log) with store := (m.store.detached block size).2 },
    block, ?_, rfl, ?_, ?_⟩
  · simp only [request, hvalue', store_absorb]
    rfl
  · change good (m.absorb (LogService.request m.log)).log.log
    rw [log_absorb]
    exact hnext
  · change (m.absorb (LogService.request m.log)).journal.aborted = false
    rw [aborted_absorb, hlive, habort', Bool.or_false]

theorem file_healthy (h : LogService.Healthy σ good size) {m : Mount (Observed σ)}
    (hgood : good m.log.log) (hlive : m.journal.aborted = false) (tid : Tid) (id : BufferId) :
    (m.file tid id).store = m.store ∧ good (m.file tid id).log.log ∧
      (m.file tid id).journal.aborted = false := by
  rcases h.file m.log.log tid id (m.store.get id) hgood with ⟨hvalue, habort, hnext⟩
  have hvalue' : (LogService.file m.log tid id (m.store.get id)).value = none := hvalue
  have habort' : (LogService.file m.log tid id (m.store.get id)).abort = false := habort
  simp only [file, hvalue', store_absorb, log_absorb, aborted_absorb, hlive, habort', Bool.or_false,
    true_and, and_true]
  exact hnext

theorem submit_healthy (h : LogService.Healthy σ good size) {m : Mount (Observed σ)}
    (hgood : good m.log.log) (hlive : m.journal.aborted = false) (id : BufferId) :
    good (m.submit id).log.log ∧ (m.submit id).journal.aborted = false := by
  rcases h.submit m.log.log id (m.store.get id) hgood with ⟨habort, hnext⟩
  have habort' : (LogService.submit m.log id (m.store.get id)).abort = false := habort
  rw [submit, log_absorb, aborted_absorb, hlive, habort']
  exact ⟨hnext, rfl⟩

end Mount

namespace OpenDescriptor

/-- A descriptor of a given size, with no more entries than it holds. -/
structure Sized (desc : OpenDescriptor) (width : RecordWidth) (size : Nat) : Prop where
  -- The width is that of the journal.
  width_eq : desc.width = width
  -- It was made for this size.
  capacity_eq : desc.capacity = size
  -- It has as many bytes.
  room_eq : desc.room = size
  -- The entries fit.
  entries_le : desc.entries ≤ width.entriesPerBlock size

variable {desc : OpenDescriptor} {width : RecordWidth} {size : Nat}

-- A descriptor is full once it has as many entries as it holds.
theorem Sized.lt_iff (h : desc.Sized width size) (hsize : revokeHeaderSize ≤ size) :
    desc.entries < width.entriesPerBlock size ↔ desc.isFull = false := by
  rw [width.lt_entriesPerBlock_iff hsize, isFull, offset, h.width_eq, h.capacity_eq,
    decide_eq_false_iff_not, Nat.not_lt]

-- It can be closed, since the count is a word.
theorem Sized.close_eq_ok (h : desc.Sized width size) {s : Store} {done : List Record}
    (hfilling : desc.Filling width s done) (hsize : revokeHeaderSize ≤ size)
    (hword : size < UInt32.size) :
    ∃ data, desc.close (s.get desc.buffer).data = (.ok (), data) := by
  have hused := width.used_le_of_le_entriesPerBlock hsize h.entries_le
  have hlen : (s.get desc.buffer).data.length = size := hfilling.room_eq.symm.trans h.room_eq
  have hfit : revokeHeaderSize + (desc.blocks.reverse.flatMap (entryBytes desc.width)).length ≤
      (s.get desc.buffer).data.length := by
    rw [length_flatMap_entryBytes, List.length_reverse, ← hfilling.entries_eq, h.width_eq, hlen]
    exact hused
  have hoffset : desc.offset < UInt32.size := by
    rw [offset, h.width_eq]
    exact Nat.lt_of_le_of_lt hused hword
  have hbounds : Bytes.bounds (writeEntries (s.get desc.buffer).data desc.blocks.reverse
      desc.width).length countOffset 4 = .ok () := by
    rw [writeEntries, Bytes.length_splice hfit, hlen]
    exact Bytes.bounds_eq_ok_iff.mpr ⟨by decide, hsize⟩
  exact ⟨_, by rw [close, closeRevoke, if_pos hoffset, Bytes.writeNat, hbounds]⟩

-- Another entry can be added as long as it is not full.
theorem Sized.add_eq_ok (h : desc.Sized width size) {b : BlockNumber}
    (hfits : width.fits b = true) (hsize : revokeHeaderSize ≤ size) (hword : size < UInt32.size)
    (hlt : desc.entries < width.entriesPerBlock size) :
    desc.add b = .ok { desc with entries := desc.entries + 1, blocks := b :: desc.blocks } := by
  have hroom := (width.lt_entriesPerBlock_iff hsize).mp hlt
  have hspace : UInt32.size < addressSpace := by decide
  have hbounds : Bytes.bounds desc.room desc.offset desc.width.bytes = .ok () := by
    rw [Bytes.bounds_eq_ok_iff, offset, h.width_eq, h.room_eq]
    exact ⟨Nat.lt_trans (Nat.lt_of_le_of_lt hroom hword) hspace, hroom⟩
  rw [add, checkEntry, h.width_eq, if_pos hfits, ← h.width_eq, hbounds]

end OpenDescriptor

namespace Draft

variable {σ : Type} [LogService σ] {good : σ → Prop} {size : Nat} {tid : Tid}
  {width : RecordWidth} {done : List Record} {d : Draft (Observed σ)}

/-- A commit that nothing has gone wrong with. -/
structure Smooth (d : Draft (Observed σ)) (good : σ → Prop) : Prop where
  -- The log is in good health.
  good : good d.mount.log.log
  -- The journal is not aborted.
  live : d.mount.journal.aborted = false
  -- No record was dropped.
  kept : d.stats.dropped = 0

/-- A commit that has handed only full descriptors to the log. -/
structure Packed (d : Draft (Observed σ)) (good : σ → Prop) (width : RecordWidth) (size : Nat) :
    Prop extends Smooth d good where
  -- What was handed to the log is full.
  full : ∀ buffer ∈ LogCall.buffers d.mount.log.calls,
    (buffer.entries width).length = width.entriesPerBlock size
  -- The descriptor being filled has no more entries than it holds.
  sized : ∀ desc, d.current = some desc → desc.Sized width size

/-- A commit that is filling a descriptor, which has an entry. -/
def Busy {σ : Type} (d : Draft σ) : Prop := ∃ desc, d.current = some desc ∧ 0 < desc.entries

/-- Closing the descriptor being filled hands it to the log with all its entries. -/
theorem Smooth.closeCurrent (h : LogService.Healthy σ good size) (hd : d.Smooth good)
    {desc : OpenDescriptor} (hcur : d.current = some desc) (hsized : desc.Sized width size)
    (hfilling : d.Filling width done) (hheaded : d.Headed tid) (hsize : revokeHeaderSize ≤ size)
    (hword : size < UInt32.size) :
    d.closeCurrent.Smooth good ∧ ∃ buffer,
      LogCall.buffers d.closeCurrent.mount.log.calls =
        LogCall.buffers d.mount.log.calls ++ [buffer] ∧
      (buffer.entries width).length = desc.entries := by
  rcases hsized.close_eq_ok (hfilling desc hcur) hsize hword with ⟨data, hclose⟩
  let e : Event := .descriptorSubmitted (d.mount.store.get desc.buffer).block desc.entries
    desc.offset
  let closed := (d.mount.modifyBuffer desc.buffer
    (fun b => ((b.setData data).setLogWrite true).setDirty false)).emit e
  have heq : d.closeCurrent =
      { d with
        current := none
        mount := closed.submit desc.buffer
        stats.written := d.stats.written + desc.entries
        stats.descriptors := d.stats.descriptors + 1 } := by
    simp only [Draft.closeCurrent, hcur, flush, hd.live, Bool.false_eq_true, if_false, hclose]
    rfl
  rw [heq]
  rcases Mount.submit_healthy h (m := closed) hd.good hd.live desc.buffer with ⟨hgood, hlive⟩
  rcases Mount.calls_submit closed hd.live desc.buffer with ⟨abort, hcalls⟩
  refine ⟨⟨hgood, hlive, hd.kept⟩, closed.store.get desc.buffer, hcalls.buffers_eq, ?_⟩
  have hparse := parse_closed hfilling hheaded hcur hclose e
  simp only [Buffer.entries, closed, hparse, List.length_reverse]
  exact (hfilling desc hcur).entries_eq.symm

/-- A descriptor is closed to make room only if it is full. -/
theorem Packed.makeRoom (h : LogService.Healthy σ good size) (hd : d.Packed good width size)
    (hfilling : d.Filling width done) (hheaded : d.Headed tid) (hsize : revokeHeaderSize ≤ size)
    (hword : size < UInt32.size) : d.makeRoom.Packed good width size := by
  unfold Draft.makeRoom
  cases hcur : d.current with
  | none => exact hd
  | some desc =>
      have hsized := hd.sized desc hcur
      by_cases hfull : desc.isFull = true
      · simp only [hfull, if_true]
        rcases hd.closeCurrent h hcur hsized hfilling hheaded hsize hword with
          ⟨hsmooth, buffer, hbuffers, hlen⟩
        have hmost : desc.entries = width.entriesPerBlock size := by
          refine Nat.le_antisymm hsized.entries_le (Nat.le_of_not_lt fun hlt => ?_)
          rw [hsized.lt_iff hsize, hfull] at hlt
          exact absurd hlt (by decide)
        refine ⟨hsmooth, ?_, fun desc hdesc => ?_⟩
        · rw [hbuffers]
          intro other hother
          rcases List.mem_append.mp hother with hother | hother
          · exact hd.full other hother
          · rw [List.mem_singleton.mp hother, hlen, hmost]
        · rw [current_closeCurrent] at hdesc
          exact absurd hdesc (by simp only [reduceCtorEq, not_false_eq_true])
      · simp only [hfull]
        exact hd

/-- A descriptor that was asked for is there, and it has room. -/
theorem Packed.openNew (h : LogService.Healthy σ good size) (hd : d.Packed good width size)
    (hsize : revokeHeaderSize ≤ size) (tid : Tid) :
    (d.openNew tid width).Packed good width size ∧
      ∃ desc, (d.openNew tid width).current = some desc := by
  rcases Mount.request_healthy h hd.good hd.live with ⟨m, block, hrequest, hstore, hgood, hlive⟩
  let id := d.mount.store.buffers.size
  have hnew : m.store.get id = Buffer.detached block size := by
    rw [hstore, Store.detached, Store.get_add, if_pos rfl]
  have hlen : (m.store.get id).data.length = size := by
    rw [hnew]
    exact List.length_replicate
  have hopen := openRevoke_eq (hlen.symm ▸ hsize) tid
  have hkept := (openRevoke_eq_ok hopen).1
  generalize leadBytes tid ++ Bytes.bigEndian 4 0 ++
    (m.store.get id).data.drop revokeHeaderSize = data at hopen hkept
  let started := m.modifyBuffer id (·.setData data)
  rcases Mount.file_healthy h (m := started) hgood hlive tid id with ⟨hfstore, hfgood, hflive⟩
  have heq : d.openNew tid width =
      { d with
        mount := started.file tid id
        current := some ⟨id, (m.store.get id).size,
          ((started.file tid id).store.get id).data.length, width, 0, []⟩ } := by
    simp only [Draft.openNew, hrequest, hopen, started, id]
  have hroom : ((started.file tid id).store.get id).data.length = size := by
    have hlt : id < m.store.buffers.size := by
      have hopened := (Mount.buffer_opened hrequest data tid).1
      rw [hfstore] at hopened
      exact Nat.lt_of_lt_of_eq hopened (Store.size_modify m.store id _)
    have hget := Store.get_modify m.store id (·.setData data) id
    rw [if_pos ⟨rfl, hlt⟩] at hget
    rw [hfstore]
    exact (congrArg (fun b => b.data.length) hget).trans (hkept.trans hlen)
  rw [heq]
  refine ⟨⟨⟨hfgood, hflive, hd.kept⟩, ?_, fun desc hdesc => ?_⟩, _, rfl⟩
  · change ∀ buffer ∈ LogCall.buffers (started.file tid id).log.calls, _
    rw [(Mount.asks_opened hrequest data tid).buffers_eq]
    exact hd.full
  · rw [← Option.some.inj hdesc]
    exact ⟨rfl, congrArg Buffer.size hnew, hroom, Nat.zero_le _⟩

theorem Packed.ensureOpen (h : LogService.Healthy σ good size) (hd : d.Packed good width size)
    (hsize : revokeHeaderSize ≤ size) (tid : Tid) :
    (d.ensureOpen tid width).Packed good width size ∧
      ∃ desc, (d.ensureOpen tid width).current = some desc := by
  unfold Draft.ensureOpen
  cases hcur : d.current with
  | none => exact hd.openNew h hsize tid
  | some desc => exact ⟨hd, desc, hcur⟩

omit [LogService σ] in
/-- A record is put into a descriptor that has room for it. -/
theorem Packed.append (hd : d.Packed good width size) {desc : OpenDescriptor}
    (hcur : d.current = some desc) (hlt : desc.entries < width.entriesPerBlock size)
    {b : BlockNumber} (hfits : width.fits b = true) (hsize : revokeHeaderSize ≤ size)
    (hword : size < UInt32.size) :
    (d.append desc b).Packed good width size ∧ (d.append desc b).Busy := by
  have hsized := hd.sized desc hcur
  let desc' : OpenDescriptor :=
    { desc with entries := desc.entries + 1, blocks := b :: desc.blocks }
  have heq : d.append desc b = { d with current := some desc' } := by
    simp only [Draft.append, hsized.add_eq_ok hfits hsize hword hlt, desc']
  rw [heq]
  refine ⟨⟨⟨hd.good, hd.live, hd.kept⟩, hd.full, fun new hnew => ?_⟩, desc', rfl, Nat.succ_pos _⟩
  rw [← Option.some.inj hnew]
  exact ⟨hsized.width_eq, hsized.capacity_eq, hsized.room_eq, hlt⟩

/-- Writing a record drops nothing, and it hands nothing to the log but full descriptors. -/
theorem Packed.write (h : LogService.Healthy σ good size) (hd : d.Packed good width size)
    (hfilling : d.Filling width done) (hheaded : d.Headed tid)
    (hsize : revokeHeaderSize + width.bytes ≤ size) (hword : size < UInt32.size) {r : Record}
    (hfits : width.fits r.block = true) :
    (Draft.write tid width d r).Packed good width size ∧ (Draft.write tid width d r).Busy := by
  have hheader : revokeHeaderSize ≤ size := Nat.le_trans (Nat.le_add_right _ _) hsize
  let counted : Draft (Observed σ) := d.count
  have hcounted : counted.Packed good width size :=
    ⟨⟨hd.good, hd.live, hd.kept⟩, hd.full, hd.sized⟩
  have hlive : counted.mount.journal.aborted = false := hd.live
  have hroom := hcounted.makeRoom h hfilling hheaded hheader hword
  rcases hroom.ensureOpen h hheader tid with ⟨hopen, desc, hcur⟩
  have hlt : desc.entries < width.entriesPerBlock size := by
    rcases room_ensureOpen hcur with hfull | hempty
    · exact ((hopen.sized desc hcur).lt_iff hheader).mpr hfull
    · rw [hempty]
      exact RecordWidth.entriesPerBlock_pos hsize
  have heq : Draft.write tid width d r =
      (counted.makeRoom.ensureOpen tid width).append desc r.block := by
    simp only [Draft.write, hlive, Bool.false_eq_true, if_false, put, counted, hcur]
  rw [heq]
  exact hopen.append hcur hlt hfits hheader hword

/-- So does writing some records. What the last of them went to is still being filled. -/
theorem Packed.foldl (h : LogService.Healthy σ good size) (hd : d.Packed good width size)
    (hcur : d.current = none) (hsize : revokeHeaderSize + width.bytes ≤ size)
    (hword : size < UInt32.size) {rs : List Record}
    (hfits : ∀ r ∈ rs, width.fits r.block = true) (tid : Tid) :
    (rs.foldl (Draft.write tid width) d).Packed good width size ∧
      (rs ≠ [] → (rs.foldl (Draft.write tid width) d).Busy) := by
  induction rs using List.reverseRecOn with
  | nil => exact ⟨hd, fun hempty => absurd rfl hempty⟩
  | append_singleton rs r ih =>
      have hbefore := (ih fun r' hr' => hfits r' (List.mem_append_left _ hr')).1
      have hsteps : Steps tid width d rs (rs.foldl (Draft.write tid width) d) := steps_foldl d rs
      rw [List.foldl_concat]
      rcases hbefore.write h (hsteps.filling (filling_of_none hcur []))
        (hsteps.headed (headed_of_none hcur tid)) hsize hword
        (hfits r (List.mem_append_right _ (List.mem_singleton_self r))) with ⟨hafter, hbusy⟩
      exact ⟨hafter, fun _ => hbusy⟩

end Draft

/-- Some descriptors, none of which is empty. All but the last one have as many entries as
    fit, and the last one has no more than that. -/
structure Tiled (width : RecordWidth) (size : Nat) (sent : List Buffer) : Prop where
  -- No descriptor but the last one has room left.
  full : ∀ buffer ∈ sent.dropLast, (buffer.entries width).length = width.entriesPerBlock size
  -- There is no empty one.
  pos : ∀ buffer ∈ sent, 0 < (buffer.entries width).length
  -- The entries fit.
  le : ∀ buffer ∈ sent, (buffer.entries width).length ≤ width.entriesPerBlock size

namespace Tiled

variable {width : RecordWidth} {size : Nat} {sent : List Buffer}

theorem nil (width : RecordWidth) (size : Nat) : Tiled width size [] :=
  ⟨fun _ h => absurd h List.not_mem_nil, fun _ h => absurd h List.not_mem_nil,
    fun _ h => absurd h List.not_mem_nil⟩

-- Another descriptor behind full ones.
theorem concat (hsize : revokeHeaderSize + width.bytes ≤ size)
    (hfull : ∀ buffer ∈ sent, (buffer.entries width).length = width.entriesPerBlock size)
    {last : Buffer} (hpos : 0 < (last.entries width).length)
    (hle : (last.entries width).length ≤ width.entriesPerBlock size) :
    Tiled width size (sent ++ [last]) := by
  refine ⟨?_, fun buffer hbuffer => ?_, fun buffer hbuffer => ?_⟩
  · rw [List.dropLast_concat]
    exact hfull
  · rcases List.mem_append.mp hbuffer with hbuffer | hbuffer
    · rw [hfull buffer hbuffer]
      exact RecordWidth.entriesPerBlock_pos hsize
    · rw [List.mem_singleton.mp hbuffer]
      exact hpos
  · rcases List.mem_append.mp hbuffer with hbuffer | hbuffer
    · exact Nat.le_of_eq (hfull buffer hbuffer)
    · rw [List.mem_singleton.mp hbuffer]
      exact hle

-- The number of entries in full descriptors.
theorem length_entries_of_full {k : Nat}
    (hfull : ∀ buffer ∈ sent, (buffer.entries width).length = k) :
    (sent.flatMap (Buffer.entries width)).length = sent.length * k := by
  rw [List.length_flatMap, List.map_congr_left hfull, List.map_const', List.sum_replicate_nat]

/-- There are as many descriptors as the entries need, the last one counted even if it is
    not full. -/
theorem length_eq (h : Tiled width size sent) (hsize : revokeHeaderSize + width.bytes ≤ size) :
    sent.length = ((sent.flatMap (Buffer.entries width)).length + width.entriesPerBlock size - 1) /
      width.entriesPerBlock size := by
  have hroom : 0 < width.entriesPerBlock size := RecordWidth.entriesPerBlock_pos hsize
  rcases List.eq_nil_or_concat' sent with rfl | ⟨front, last, rfl⟩
  · rw [List.flatMap_nil, List.length_nil, List.length_nil, Nat.zero_add,
      Nat.div_eq_of_lt (Nat.sub_one_lt_of_lt hroom)]
  · have hpos := h.pos last (List.mem_append_right _ (List.mem_singleton_self last))
    have hle := h.le last (List.mem_append_right _ (List.mem_singleton_self last))
    have hfull := h.full
    rw [List.dropLast_concat] at hfull
    rw [List.flatMap_append, List.flatMap_singleton, List.length_append, List.length_append,
      List.length_singleton, length_entries_of_full hfull]
    refine (Nat.div_eq_of_lt_le ?_ ?_).symm
    · rw [Nat.succ_mul]
      omega
    · rw [Nat.succ_mul, Nat.succ_mul]
      omega

end Tiled

namespace Mount

variable {σ : Type} [LogService σ] {good : σ → Prop} {size : Nat}

/-- Over a log in good health, a commit drops nothing, and it hands no descriptor to the log
    that is empty or could take another entry, but for the last one. -/
theorem tiled_commit (h : LogService.Healthy σ good size) (m : Mount σ)
    (hmap : m.journal.table.IsMap)
    (hfits : ∀ b, m.journal.table.Holds b → m.journal.config.recordWidth.fits b = true)
    (hgood : good m.log) (hlive : m.journal.aborted = false)
    (hsize : revokeHeaderSize + m.journal.config.recordWidth.bytes ≤ size)
    (hword : size < UInt32.size) (tid : Tid) :
    (m.commit tid).1.dropped = 0 ∧
      Tiled m.journal.config.recordWidth size (m.commitBuffers tid) := by
  let width := m.journal.config.recordWidth
  let start : Draft (Observed σ) := ⟨m.observed.drainTable.2, {}, none⟩
  let filled := m.journal.table.records.foldl (Draft.write tid width) start
  have hsent : m.commitBuffers tid = LogCall.buffers filled.closeCurrent.mount.log.calls := rfl
  have hstats : (m.commit tid).1 = filled.closeCurrent.stats := by
    rw [commit_observed]
    rfl
  have hstart : start.Packed good width size :=
    ⟨⟨hgood, hlive, rfl⟩, fun _ h => absurd h List.not_mem_nil,
      fun _ h => absurd h (by simp only [start, reduceCtorEq, not_false_eq_true])⟩
  have hrecords : ∀ r ∈ m.journal.table.records, width.fits r.block = true := fun r hr =>
    hfits r.block ((Table.holds_iff_mem hmap).mpr (List.mem_map_of_mem hr))
  rcases hstart.foldl h rfl hsize hword hrecords tid with ⟨hpacked, hbusy⟩
  rw [hsent, hstats]
  by_cases hempty : m.journal.table.records = []
  · have hnone : filled = start := by simp only [filled, hempty, List.foldl_nil]
    rw [hnone]
    exact ⟨rfl, .nil width size⟩
  · rcases hbusy hempty with ⟨desc, hcur, hpos⟩
    have hsteps : Draft.Steps tid width start m.journal.table.records filled :=
      Draft.steps_foldl start m.journal.table.records
    have hsized := hpacked.sized desc hcur
    rcases hpacked.closeCurrent h hcur hsized (hsteps.filling (Draft.filling_of_none rfl []))
      (hsteps.headed (Draft.headed_of_none rfl tid)) (Nat.le_trans (Nat.le_add_right _ _) hsize)
      hword with ⟨hsmooth, last, hbuffers, hlen⟩
    refine ⟨hsmooth.kept, ?_⟩
    rw [hbuffers]
    exact .concat hsize hpacked.full (hlen ▸ hpos) (hlen ▸ hsized.entries_le)

/-- How a commit packs the records of the table into descriptors of one size. -/
structure Packing (m : Mount σ) (tid : Tid) (size : Nat) : Prop where
  -- No descriptor but the last one has room left, and none is empty.
  tiled : Tiled m.journal.config.recordWidth size (m.commitBuffers tid)
  -- There are as many of them as it takes, rounded up.
  length_eq : (m.commitBuffers tid).length =
    (m.journal.table.len + m.journal.config.recordWidth.entriesPerBlock size - 1) /
      m.journal.config.recordWidth.entriesPerBlock size
  -- They are read as descriptors of the transaction.
  parsed : ∀ buffer ∈ m.commitBuffers tid,
    RevokeBlock.parse buffer.data m.journal.config.recordWidth =
      .ok ⟨tid, buffer.entries m.journal.config.recordWidth⟩
  -- The count of each is that of its header and its entries.
  count_eq : ∀ buffer ∈ m.commitBuffers tid,
    Bytes.readNat buffer.data countOffset 4 =
      .ok (revokeHeaderSize + m.journal.config.recordWidth.bytes *
        (buffer.entries m.journal.config.recordWidth).length)
  -- These are within the block.
  count_le : ∀ buffer ∈ m.commitBuffers tid,
    revokeHeaderSize + m.journal.config.recordWidth.bytes *
      (buffer.entries m.journal.config.recordWidth).length ≤ size
  -- The entries are the blocks of the table in the order in which it is drained.
  entries_eq : m.commitEntries tid = m.journal.table.records.map Record.block
  -- Each block of the table is listed once.
  nodup : (m.commitEntries tid).Nodup
  -- Nothing else is listed.
  mem_iff : ∀ b, b ∈ m.commitEntries tid ↔ m.journal.table.Holds b
  -- Every record was written.
  stats_eq : (m.commit tid).1 =
    ⟨m.journal.table.len, m.journal.table.len, 0, (m.commitBuffers tid).length⟩

/-- A commit over a log in good health packs every record of the table into descriptors, if
    the table is a map of blocks that fit the records. -/
theorem packing_of_isMap {m : Mount σ} (h : LogService.Healthy σ good size) (hgood : good m.log)
    (hmap : m.journal.table.IsMap)
    (hfits : ∀ b, m.journal.table.Holds b → m.journal.config.recordWidth.fits b = true)
    (hlive : m.journal.aborted = false)
    (hsize : revokeHeaderSize + m.journal.config.recordWidth.bytes ≤ size)
    (hword : size < UInt32.size) (tid : Tid) : m.Packing tid size := by
  rcases tiled_commit h m hmap hfits hgood hlive hsize hword tid with ⟨hdropped, htiled⟩
  have haccount := account_of_isMap hmap tid
  have hwritten : (m.commit tid).1.written = m.journal.table.len := by
    have htotal := haccount.total_eq
    rw [hdropped, haccount.records_eq] at htotal
    exact htotal.symm
  have hlen : (m.commitEntries tid).length = m.journal.table.len :=
    haccount.written_eq.trans hwritten
  -- As many entries as there are records, and in their order, so none is missing.
  have hentries : m.commitEntries tid = m.journal.table.records.map Record.block :=
    haccount.sublist.eq_of_length (by rw [hlen, hmap.len_eq, List.length_map])
  refine ⟨htiled, ?_, haccount.parsed, fun buffer hbuffer => ?_, fun buffer hbuffer => ?_, hentries,
    haccount.nodup, fun b => ?_, ?_⟩
  · rw [← hlen]
    exact htiled.length_eq hsize
  · exact RevokeBlock.count_of_parse (haccount.parsed buffer hbuffer)
  · exact RecordWidth.used_le_of_le_entriesPerBlock _ (Nat.le_trans (Nat.le_add_right _ _) hsize)
      (htiled.le buffer hbuffer)
  · rw [hentries, Table.holds_iff_mem hmap]
  · calc (m.commit tid).1
        = ⟨(m.commit tid).1.records, (m.commit tid).1.written, (m.commit tid).1.dropped,
            (m.commit tid).1.descriptors⟩ := rfl
      _ = _ := by rw [haccount.records_eq, hwritten, hdropped, haccount.descriptors_eq]

/-- A commit over a log in good health packs every record of a table that was built by calls
    into descriptors. Like every size of a buffer, theirs is a word of 32 bits. -/
theorem commit_packs (m : Mount σ) (h : LogService.Healthy σ good size) (hgood : good m.log)
    (hbuilt : m.journal.table.Built m.journal.config) (hlive : m.journal.aborted = false)
    (hsize : revokeHeaderSize + m.journal.config.recordWidth.bytes ≤ size)
    (hword : size < UInt32.size) (tid : Tid) : m.Packing tid size := by
  rcases hbuilt.sound with ⟨hmap, hfits⟩
  exact packing_of_isMap h hgood hmap hfits hlive hsize hword tid

end Mount

/-- A log that follows a script without refusing, cutting short or aborting anything is in
    good health. -/
theorem ScriptedLog.healthy (size : Nat) :
    LogService.Healthy ScriptedLog (fun log => log.script = { size := size }) size where
  request := by
    intro log hscript
    simp only [LogService.request, hscript, List.not_mem_nil, if_false, reduceCtorEq, decide_false,
      and_true]
    exact ⟨_, rfl⟩
  file := by
    intro log tid id b hscript
    simp only [LogService.file, hscript, reduceCtorEq, decide_false, and_self]
  submit := by
    intro log id b hscript
    simp only [LogService.submit, hscript, reduceCtorEq, decide_false, and_self]

-- Seven records make four descriptors for two entries each. The last has one.
theorem commit_packs_sevenRevokes :
    let m := (scriptedMount { size := 24 }).run sevenRevokes
    m.Packing ⟨5⟩ 24 ∧ (m.commit ⟨5⟩).1 = ⟨7, 7, 0, 4⟩ ∧
      (m.commitBuffers ⟨5⟩).map (fun b => (b.entries .narrow).length) = [2, 2, 2, 1] := by
  intro m
  have hbuilt : m.journal.table.Built m.journal.config :=
    Mount.built_run create_smallStore (create_scriptedMount { size := 24 }) sevenRevokes
  have hgood : m.log.script = { size := 24 } := by decide +kernel
  have hsize : revokeHeaderSize + m.journal.config.recordWidth.bytes ≤ 24 := by decide +kernel
  have hlive : m.journal.aborted = false := by decide +kernel
  refine ⟨Mount.commit_packs m (ScriptedLog.healthy 24) hgood hbuilt hlive hsize (by decide) ⟨5⟩,
    ?_, ?_⟩
  · decide +kernel
  · decide +kernel

end BlockJournal
