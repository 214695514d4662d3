import BlockJournal.Proofs.Descriptor
import BlockJournal.Proofs.Mount.Exchange
import BlockJournal.Proofs.Mount.Log

/-!
# What a Commit Hands to the Log

The entries of the descriptors that a commit writes.

Nobody looks into a descriptor while it is being filled, so its entries are kept
aside and stored when it is closed. `OpenDescriptor.Filling` says that what is kept
aside will fit when the time comes, whatever the log made of the buffer when it
was filed. With it a descriptor that was closed is read back as its entries, and
these are records that the commit took out of the table.

To say what a commit wrote, a log has to be asked about the past. `Witnessed` adds
to a log the list of the buffers it was told to write. It changes nothing else, as
`run_witnessed` says, so what a journal has written by any log is what it has written
by its witness.

## Main definitions

* `OpenDescriptor.Filling`, `Draft.Filling`: A descriptor that can be closed.
* `Buffer.Lists`: A buffer is a descriptor with an entry for a block.
* `Witnessed`: A log that remembers what it was told to write.
* `Mount.witnessed`: The mount with such a log.

## Theorems

* `Filling.parse_close`: What is read in a descriptor that was filled.
* `Step.filling`, `Steps.filling`: A commit only adds what fits.
* `run_witnessed`: A witness changes nothing.
* `submitted_commit`: The descriptors of a commit list blocks that had a record.
* `submitted_after`: No other call has anything written.
-/

namespace BlockJournal

namespace OpenDescriptor

/-- What is true of a descriptor while a commit is filling it: its entries have room
    in its buffer, and they are blocks of the records `done`. -/
structure Filling (desc : OpenDescriptor) (width : RecordWidth) (s : Store) (done : List Record) :
    Prop where
  -- Its buffer exists.
  lt_size : desc.buffer < s.buffers.size
  -- The width is that of the journal.
  width_eq : desc.width = width
  -- Every entry is kept.
  entries_eq : desc.entries = desc.blocks.length
  -- Every entry can be stored.
  fits : ∀ b ∈ desc.blocks, width.fits b = true
  -- The room is that of the buffer.
  room_eq : desc.room = (s.get desc.buffer).data.length
  -- The entries have room.
  offset_le : desc.blocks ≠ [] → desc.offset ≤ desc.room
  -- The entries are blocks of records.
  mem : ∀ b ∈ desc.blocks, b ∈ done.map Record.block

theorem Filling.mono {desc : OpenDescriptor} {width : RecordWidth} {s : Store}
    {done : List Record} (h : desc.Filling width s done) (rs : List Record) :
    desc.Filling width s (done ++ rs) := by
  refine { h with mem := fun b hb => ?_ }
  rw [List.map_append]
  exact List.mem_append_left _ (h.mem b hb)

-- An entry that passed its check can be stored with the others.
theorem Filling.add {desc desc' : OpenDescriptor} {width : RecordWidth} {s : Store}
    {done : List Record} (h : desc.Filling width s done) {r : Record}
    (hadd : desc.add r.block = .ok desc') : desc'.Filling width s (done ++ [r]) := by
  rcases add_eq_ok hadd with ⟨hcheck, rfl⟩
  unfold checkEntry at hcheck
  by_cases hfits : desc.width.fits r.block = true
  · rw [if_pos hfits] at hcheck
    rcases Bytes.bounds_eq_ok_iff.mp hcheck with ⟨_, hroom⟩
    refine ⟨h.lt_size, h.width_eq, ?_, ?_, h.room_eq, fun _ => ?_, ?_⟩
    · simp only [h.entries_eq, List.length_cons]
    · intro b hb
      rcases List.mem_cons.mp hb with rfl | hb
      · exact h.width_eq ▸ hfits
      · exact h.fits b hb
    · simp only [offset, Nat.mul_succ] at hroom ⊢
      omega
    · intro b hb
      rw [List.map_append, List.mem_append]
      rcases List.mem_cons.mp hb with rfl | hb
      · exact Or.inr (List.mem_singleton.mpr rfl)
      · exact Or.inl (h.mem b hb)
  · rw [if_neg hfits] at hcheck
    exact absurd hcheck (by simp only [reduceCtorEq, not_false_eq_true])

-- What closing a descriptor comes to, in the terms of its layout.
theorem Filling.layout {desc : OpenDescriptor} {width : RecordWidth} {s : Store}
    {done : List Record} (h : desc.Filling width s done) :
    (∀ b ∈ desc.blocks.reverse, width.fits b = true) ∧
      (desc.blocks.reverse ≠ [] → revokeHeaderSize + width.bytes * desc.blocks.reverse.length ≤
        (s.get desc.buffer).data.length) ∧
      desc.close (s.get desc.buffer).data =
        closeRevoke (writeEntries (s.get desc.buffer).data desc.blocks.reverse width)
          (revokeHeaderSize + width.bytes * desc.blocks.reverse.length) := by
  have hused : desc.offset = revokeHeaderSize + width.bytes * desc.blocks.reverse.length := by
    rw [offset, h.width_eq, h.entries_eq, List.length_reverse]
  refine ⟨fun b hb => h.fits b (List.mem_reverse.mp hb), fun hentries => ?_, ?_⟩
  · rw [← hused, ← h.room_eq]
    exact h.offset_le fun hempty => hentries (List.reverse_eq_nil_iff.mpr hempty)
  · rw [close, hused, h.width_eq]

/-- A descriptor that was filled and closed is read back as its entries, if the log
    left its header alone. -/
theorem Filling.parse_close {desc : OpenDescriptor} {width : RecordWidth} {s : Store}
    {done : List Record} (h : desc.Filling width s done) {data : Bytes} {sequence : Tid}
    (hclose : desc.close (s.get desc.buffer).data = (.ok (), data))
    (hheader : Header.read (s.get desc.buffer).data = .ok ⟨BlockKind.revoke.code, sequence⟩) :
    RevokeBlock.parse data width = .ok ⟨sequence, desc.blocks.reverse⟩ := by
  rcases h.layout with ⟨hfits, hroom, heq⟩
  exact RevokeBlock.parse_close hfits hroom hheader (heq.symm.trans hclose)

-- If anything is read in it at all, it is its entries.
theorem Filling.blocks_of_parse {desc : OpenDescriptor} {width : RecordWidth} {s : Store}
    {done : List Record} (h : desc.Filling width s done) {data : Bytes}
    (hclose : desc.close (s.get desc.buffer).data = (.ok (), data)) {r : RevokeBlock}
    (hparse : RevokeBlock.parse data width = .ok r) : r.blocks = desc.blocks.reverse := by
  rcases h.layout with ⟨hfits, hroom, heq⟩
  exact RevokeBlock.blocks_of_parse_close hfits hroom (heq.symm.trans hclose) hparse

end OpenDescriptor

-- The buffer of a descriptor that was opened was added when it was asked for, and it holds
-- what it was opened with as far as the log did not cut it short.
theorem Mount.buffer_opened {σ : Type} [LogService σ] {m m₁ : Mount σ} {id : BufferId}
    (hrequest : m.request = (some id, m₁)) (data : Bytes) (tid : Tid) :
    id < ((m₁.modifyBuffer id (·.setData data)).file tid id).store.buffers.size ∧
      ∃ len, (((m₁.modifyBuffer id (·.setData data)).file tid id).store.get id).data =
        data.take len := by
  rcases core_request_some hrequest with ⟨hid, block, size, hcore⟩
  have hstore : m₁.store = (m.store.detached block size).2 := congrArg (fun m => m.store) hcore
  have hlt : id < m₁.store.buffers.size := by
    rw [hstore, hid]
    simp only [Store.detached, Store.add, Array.size_push]
    exact Nat.lt_succ_self _
  have hset : (m₁.modifyBuffer id (·.setData data)).store =
      m₁.store.modify id (·.setData data) := rfl
  have hdata : ((m₁.store.modify id (·.setData data)).get id).data = data := by
    rw [Store.get_modify, if_pos ⟨rfl, hlt⟩]
    rfl
  rcases core_file (m₁.modifyBuffer id (·.setData data)) tid id with h | ⟨len, h⟩
  · rw [store_of_core h, hset, Store.size_modify, hdata]
    exact ⟨hlt, data.length, List.take_length.symm⟩
  · have hcut : ((m₁.modifyBuffer id (·.setData data)).file tid id).store =
        (m₁.store.modify id (·.setData data)).modify id (·.truncate len) :=
      congrArg (fun m => m.store) h
    rw [hcut, Store.size_modify, Store.size_modify, Store.get_modify,
      if_pos ⟨rfl, by rw [Store.size_modify]; exact hlt⟩]
    exact ⟨hlt, len, congrArg (List.take len) hdata⟩

-- A descriptor that was closed holds what it was closed with.
theorem Mount.data_closed {σ : Type} {m : Mount σ} {id : BufferId}
    (hlt : id < m.store.buffers.size) (data : Bytes) :
    ((m.modifyBuffer id (fun b => ((b.setData data).setLogWrite true).setDirty false)).store.get
      id).data = data := by
  have hget := Store.get_modify m.store id
    (fun b => ((b.setData data).setLogWrite true).setDirty false) id
  rw [if_pos ⟨rfl, hlt⟩] at hget
  exact congrArg Buffer.data hget

namespace Draft

variable {σ : Type} [LogService σ] {tid : Tid} {width : RecordWidth}

/-- The descriptor that a commit is filling, if there is one, can be closed. -/
def Filling (d : Draft σ) (width : RecordWidth) (done : List Record) : Prop :=
  ∀ desc, d.current = some desc → desc.Filling width d.mount.store done

omit [LogService σ] in
theorem filling_of_none {d : Draft σ} (h : d.current = none) (done : List Record) :
    d.Filling width done := by
  intro desc hdesc
  rw [h] at hdesc
  exact absurd hdesc (by simp only [reduceCtorEq, not_false_eq_true])

/-- A commit touches no buffer while there is a descriptor to fill, and what it adds to
    the descriptor fits. -/
theorem Step.filling {d d' : Draft σ} {rs done : List Record} (h : Step tid width d rs d')
    (hd : d.Filling width done) : d'.Filling width (done ++ rs) := by
  cases h with
  | count => exact fun desc hdesc => (hd desc hdesc).mono _
  | drop r _ => exact fun desc hdesc => (hd desc hdesc).mono _
  | refused m e hcur hrequest =>
      refine filling_of_none ?_ _
      exact hcur
  | unopened id m data cause e hcur hrequest hopen =>
      refine filling_of_none ?_ _
      exact hcur
  | opened id m m' data hcur hrequest hopen hfile =>
      intro desc hdesc
      rw [← Option.some.inj hdesc]
      refine ⟨?_, rfl, rfl, ?_, rfl, fun h => absurd rfl h, ?_⟩
      · rw [← hfile]
        exact (Mount.buffer_opened hrequest data tid).1
      · exact fun b hb => absurd hb List.not_mem_nil
      · exact fun b hb => absurd hb List.not_mem_nil
  | unfit desc r cause e hcur hroom hadd => exact fun desc hdesc => (hd desc hdesc).mono _
  | added desc desc' r hcur hroom hadd =>
      intro new hnew
      rw [← Option.some.inj hnew]
      exact (hd desc hcur).add hadd
  | lost desc e hcur habort => exact filling_of_none rfl _
  | unclosed desc data cause e hcur habort hclose => exact filling_of_none rfl _
  | submitted desc data e hcur habort hclose => exact filling_of_none rfl _

theorem Steps.filling {d d' : Draft σ} {rs done : List Record} (h : Steps tid width d rs d')
    (hd : d.Filling width done) : d'.Filling width (done ++ rs) := by
  induction h with
  | refl => simpa only [List.append_nil] using hd
  | snoc _ hstep ih =>
      rw [← List.append_assoc]
      exact hstep.filling ih

end Draft

/-- A buffer is read as a descriptor, and it has an entry for a block. -/
def Buffer.Lists (buffer : Buffer) (width : RecordWidth) (b : BlockNumber) : Prop :=
  ∃ r, RevokeBlock.parse buffer.data width = .ok r ∧ b ∈ r.blocks

/-- A log with the buffers it was told to write, as they were then, oldest first. -/
structure Witnessed (σ : Type) where
  -- The log.
  log : σ
  -- The buffers.
  submitted : List Buffer

instance {σ : Type} [LogService σ] : LogService (Witnessed σ) where
  forget w tid b :=
    let reply := LogService.forget w.log tid b
    ⟨reply.value, ⟨reply.next, w.submitted⟩, reply.abort, reply.events⟩
  request w :=
    let reply := LogService.request w.log
    ⟨reply.value, ⟨reply.next, w.submitted⟩, reply.abort, reply.events⟩
  file w tid id b :=
    let reply := LogService.file w.log tid id b
    ⟨reply.value, ⟨reply.next, w.submitted⟩, reply.abort, reply.events⟩
  submit w id b :=
    let reply := LogService.submit w.log id b
    ⟨reply.value, ⟨reply.next, w.submitted ++ [b]⟩, reply.abort, reply.events⟩

/-- A log answers as it does without its witness. -/
theorem Witnessed.alike {σ : Type} [LogService σ] :
    LogService.Alike (Witnessed.log : Witnessed σ → σ) :=
  ⟨fun _ _ _ => rfl, fun _ => rfl, fun _ _ _ _ => rfl, fun _ _ _ => rfl⟩

/-- The mount with a log that remembers what it is told to write from now on. -/
def Mount.witnessed {σ : Type} (m : Mount σ) : Mount (Witnessed σ) := m.exchange (⟨·, []⟩)

/-- A run is the same with a witness. -/
theorem Mount.run_witnessed {σ : Type} [LogService σ] (m : Mount σ) (calls : List Call) :
    (m.witnessed.run calls).exchange Witnessed.log = m.run calls :=
  (Mount.run_exchange Witnessed.alike m.witnessed calls).symm

/-- A log was told to write more buffers, and they have entries for these blocks only. -/
def Witnessed.Adds {σ : Type} (w w' : Witnessed σ) (width : RecordWidth) (blocks : BlockNumber → Prop) :
    Prop :=
  ∃ new, w'.submitted = w.submitted ++ new ∧ ∀ buffer ∈ new, ∀ b, buffer.Lists width b → blocks b

theorem Witnessed.Adds.of_eq {σ : Type} {w w' : Witnessed σ} {width : RecordWidth}
    {blocks : BlockNumber → Prop} (h : w'.submitted = w.submitted) : w.Adds w' width blocks :=
  ⟨[], by rw [h, List.append_nil], fun _ hb => absurd hb List.not_mem_nil⟩

theorem Witnessed.Adds.mono {σ : Type} {w w' : Witnessed σ} {width : RecordWidth}
    {blocks blocks' : BlockNumber → Prop} (h : w.Adds w' width blocks)
    (hblocks : ∀ b, blocks b → blocks' b) : w.Adds w' width blocks' := by
  rcases h with ⟨new, heq, hnew⟩
  exact ⟨new, heq, fun buffer hb b hlists => hblocks b (hnew buffer hb b hlists)⟩

theorem Witnessed.Adds.trans {σ : Type} {w w' w'' : Witnessed σ} {width : RecordWidth}
    {blocks : BlockNumber → Prop} (h : w.Adds w' width blocks) (h' : w'.Adds w'' width blocks) :
    w.Adds w'' width blocks := by
  rcases h with ⟨new, heq, hnew⟩
  rcases h' with ⟨new', heq', hnew'⟩
  refine ⟨new ++ new', by rw [heq', heq, List.append_assoc], fun buffer hb => ?_⟩
  rcases List.mem_append.mp hb with hb | hb
  · exact hnew buffer hb
  · exact hnew' buffer hb

namespace Mount

variable {σ : Type} [LogService σ]

-- Only one call to a log makes it remember more.
theorem submitted_request (m : Mount (Witnessed σ)) :
    m.request.2.log.submitted = m.log.submitted := by
  rw [log_request]
  rfl

theorem submitted_file (m : Mount (Witnessed σ)) (tid : Tid) (id : BufferId) :
    (m.file tid id).log.submitted = m.log.submitted := by
  rw [log_file]
  rfl

theorem submitted_submit (m : Mount (Witnessed σ)) (id : BufferId) :
    (m.submit id).log.submitted = m.log.submitted ++ [m.store.get id] := by
  rw [log_submit]
  rfl

end Mount

namespace Draft

variable {σ : Type} [LogService σ] {tid : Tid} {width : RecordWidth}

-- What a step has written lists blocks of records that the commit is done with.
theorem Step.adds {d d' : Draft (Witnessed σ)} {rs done : List Record}
    (h : Step tid width d rs d') (hd : d.Filling width done) :
    d.mount.log.Adds d'.mount.log width (· ∈ (done ++ rs).map Record.block) := by
  cases h with
  | count => exact .of_eq rfl
  | drop r _ => exact .of_eq rfl
  | refused m e hcur hrequest =>
      have hlog := Mount.submitted_request d.mount
      rw [hrequest] at hlog
      exact .of_eq hlog
  | unopened id m data cause e hcur hrequest hopen =>
      have hlog := Mount.submitted_request d.mount
      rw [hrequest] at hlog
      exact .of_eq hlog
  | opened id m m' data hcur hrequest hopen hfile =>
      have hlog := Mount.submitted_request d.mount
      rw [hrequest] at hlog
      have hfiled := Mount.submitted_file (m.modifyBuffer id (·.setData data)) tid id
      rw [hfile] at hfiled
      exact .of_eq (hfiled.trans hlog)
  | unfit desc r cause e hcur hroom hadd => exact .of_eq rfl
  | added desc desc' r hcur hroom hadd => exact .of_eq rfl
  | lost desc e hcur habort => exact .of_eq rfl
  | unclosed desc data cause e hcur habort hclose => exact .of_eq rfl
  | submitted desc data e hcur habort hclose =>
      have hfilling := hd desc hcur
      let closed := (d.mount.modifyBuffer desc.buffer
        (fun b => ((b.setData data).setLogWrite true).setDirty false)).emit e
      have hdata : (closed.store.get desc.buffer).data = data :=
        Mount.data_closed hfilling.lt_size data
      refine ⟨[closed.store.get desc.buffer], Mount.submitted_submit closed desc.buffer, ?_⟩
      intro buffer hbuffer b hlists
      rw [List.mem_singleton.mp hbuffer] at hlists
      rcases hlists with ⟨r, hparse, hb⟩
      rw [hdata] at hparse
      rw [hfilling.blocks_of_parse hclose hparse, List.mem_reverse] at hb
      exact (hfilling.mono []).mem b hb

theorem Steps.adds {d d' : Draft (Witnessed σ)} {rs done : List Record}
    (h : Steps tid width d rs d') (hd : d.Filling width done) :
    d.mount.log.Adds d'.mount.log width (· ∈ (done ++ rs).map Record.block) := by
  induction h with
  | refl => exact .of_eq rfl
  | snoc hsteps hstep ih =>
      rw [← List.append_assoc]
      refine (ih.mono fun b hb => ?_).trans (hstep.adds (hsteps.filling hd))
      rw [List.map_append]
      exact List.mem_append_left _ hb

end Draft

namespace Mount

variable {σ : Type} [LogService σ]

/-- The descriptors of a commit list blocks that had a record. -/
theorem submitted_commit (m : Mount (Witnessed σ)) (tid : Tid) :
    m.log.Adds (m.commit tid).2.log m.journal.config.recordWidth
      (· ∈ m.journal.table.records.map Record.block) := by
  rcases Draft.steps_commit m tid with ⟨d, e, hsteps, _, heq⟩
  rw [heq]
  exact hsteps.adds (Draft.filling_of_none rfl [])

/-- Nothing but a commit has anything written. -/
theorem submitted_after (m : Mount (Witnessed σ)) {c : Call} (hc : ∀ tid, c ≠ .commit tid) :
    (m.after c).log.submitted = m.log.submitted := by
  rcases m.log_after hc with hlog | ⟨tid, b, hlog⟩
  · rw [hlog]
  · rw [hlog]
    rfl

end Mount

end BlockJournal
