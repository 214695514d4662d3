import BlockJournal.Proofs.Commit.Contents
import BlockJournal.ScriptedLog

/-!
# What a Commit Accounts For

The calls of a commit to its log, and the counts it returns.

A log may refuse a descriptor, cut it short when it is filed, and abort the journal
from inside any call. Whatever it does, a commit has nothing written once the journal
was aborted, and every record it took out of the table is counted once: as written if
it is in a descriptor that was handed to the log, and as dropped if not. `Draft.Step`
says what can happen next, so both are about single steps. `Mount.Calls` follows the
calls and the mark of an abort, and `Draft.Accounted` the counts.

What was handed to the log is what a recovery will read, so it is given by the
contents of the buffers at the time of the call. `Observed` adds to a log the list of
the calls it got, and changes nothing else.

## Main definitions

* `LogCall`, `Observed`: A call to a log, and a log that remembers its calls.
* `Mount.commitCalls`: The calls of a commit.
* `Mount.commitBuffers`, `Mount.commitEntries`: What it has its log write.
* `Mount.Calls`: Some calls, none of which has anything written after an abort.
* `Mount.Asks`: Some calls, none of which has anything written at all.
* `Draft.Accounted`: The counts of a commit under way.
* `Table.Built`: A table that calls to a journal have built.
* `Mount.Account`: What a commit accounts for in the end.

## Theorems

* `commit_observed`: Observing a log changes nothing.
* `Step.calls`, `Steps.calls`: The calls of a step, and of some steps.
* `Step.accounted`, `Steps.accounted`: No step loses count.
* `records_commit`, `total_commit`: Every record is counted, as written or as dropped.
* `account_of_isMap`, `commit_accounts`: The account of a commit over any log.
* `Account.stats_of_silent`: The counts of a commit that writes nothing.
-/

namespace BlockJournal

/-- A call to a log. -/
structure LogCall where
  /-- The buffer that is to be written, as it is then, if this is what is asked for. -/
  submitted : Option Buffer
  /-- Whether the log aborts the journal from inside the call. -/
  aborts : Bool

/-- The buffers that were to be written, oldest first. -/
def LogCall.buffers (calls : List LogCall) : List Buffer := calls.filterMap LogCall.submitted

/-- A log with the calls it got, oldest first. -/
structure Observed (σ : Type) where
  -- The log.
  log : σ
  -- The calls.
  calls : List LogCall

/-- The answer to a call, which is remembered. -/
def Observed.note {σ α : Type} (w : Observed σ) (submitted : Option Buffer) (reply : Reply σ α) :
    Reply (Observed σ) α :=
  ⟨reply.value, ⟨reply.next, w.calls ++ [⟨submitted, reply.abort⟩]⟩, reply.abort, reply.events⟩

instance {σ : Type} [LogService σ] : LogService (Observed σ) where
  forget w tid b := w.note none (LogService.forget w.log tid b)
  request w := w.note none (LogService.request w.log)
  file w tid id b := w.note none (LogService.file w.log tid id b)
  submit w id b := w.note (some b) (LogService.submit w.log id b)

/-- A log answers as it does when nobody observes it. -/
theorem Observed.alike {σ : Type} [LogService σ] :
    LogService.Alike (Observed.log : Observed σ → σ) :=
  ⟨fun _ _ _ => rfl, fun _ => rfl, fun _ _ _ _ => rfl, fun _ _ _ => rfl⟩

namespace Mount

variable {σ : Type}

/-- The mount with a log that remembers its calls from now on. -/
def observed (m : Mount σ) : Mount (Observed σ) := m.exchange (⟨·, []⟩)

/-- The calls that a commit makes to its log. -/
def commitCalls [LogService σ] (m : Mount σ) (tid : Tid) : List LogCall :=
  (m.observed.commit tid).2.log.calls

/-- A commit is the same when its log is observed. -/
theorem commit_observed [LogService σ] (m : Mount σ) (tid : Tid) :
    m.commit tid = (m.observed.commit tid).map id (exchange Observed.log) :=
  commit_exchange Observed.alike m.observed tid

@[simp] theorem aborted_absorb {α : Type} (m : Mount σ) (reply : Reply σ α) :
    (m.absorb reply).journal.aborted = (m.journal.aborted || reply.abort) := by
  cases haborted : m.journal.aborted with
  | true =>
      simp only [absorb, abort, emitAll, haborted, if_true, ite_self, Bool.true_or]
  | false =>
      cases habort : reply.abort with
      | true =>
          simp only [absorb, abort, emitAll, emit, haborted, habort, if_true, Bool.false_eq_true,
            if_false, Bool.or_true]
      | false =>
          simp only [absorb, emitAll, haborted, habort, Bool.false_eq_true, if_false, Bool.or_false]

/-- Some calls to the log, one after the other. Whether the journal is aborted is decided
    by them, and none of them has a buffer written once it is. -/
structure Calls (m m' : Mount (Observed σ)) (new : List LogCall) : Prop where
  -- The log got the calls.
  calls_eq : m'.log.calls = m.log.calls ++ new
  -- The journal is aborted if it was, or if one of them aborts it.
  aborted_eq : m'.journal.aborted = (m.journal.aborted || new.any LogCall.aborts)
  -- Nothing is written if it was aborted before.
  silent : m.journal.aborted = true → ∀ call ∈ new, call.submitted = none
  -- Nothing is written after one of them has aborted it.
  pairwise : new.Pairwise fun call later => call.aborts = true → later.submitted = none

theorem Calls.of_eq {m m' : Mount (Observed σ)} (hlog : m'.log = m.log)
    (haborted : m'.journal.aborted = m.journal.aborted) : m.Calls m' [] :=
  ⟨by rw [hlog, List.append_nil], by rw [haborted, List.any_nil, Bool.or_false],
    fun _ _ h => absurd h List.not_mem_nil, List.Pairwise.nil⟩

theorem Calls.trans {m m' m'' : Mount (Observed σ)} {new new' : List LogCall}
    (h : m.Calls m' new) (h' : m'.Calls m'' new') : m.Calls m'' (new ++ new') := by
  refine ⟨?_, ?_, fun haborted call hcall => ?_,
    List.pairwise_append.mpr ⟨h.pairwise, h'.pairwise, fun call hcall later hlater habort => ?_⟩⟩
  · rw [h'.calls_eq, h.calls_eq, List.append_assoc]
  · rw [h'.aborted_eq, h.aborted_eq, List.any_append, Bool.or_assoc]
  · rcases List.mem_append.mp hcall with hcall | hcall
    · exact h.silent haborted call hcall
    · exact h'.silent (by rw [h.aborted_eq, haborted, Bool.true_or]) call hcall
  · have hany : new.any LogCall.aborts = true := List.any_eq_true.mpr ⟨call, hcall, habort⟩
    exact h'.silent (by rw [h.aborted_eq, hany, Bool.or_true]) later hlater

theorem Calls.buffers_eq {m m' : Mount (Observed σ)} {new : List LogCall} (h : m.Calls m' new) :
    LogCall.buffers m'.log.calls = LogCall.buffers m.log.calls ++ LogCall.buffers new := by
  rw [h.calls_eq, LogCall.buffers, List.filterMap_append]
  rfl

-- One call that is remembered.
theorem calls_absorb {α : Type} (m : Mount (Observed σ)) {submitted : Option Buffer}
    (hsilent : m.journal.aborted = true → submitted = none) (reply : Reply σ α) :
    m.Calls (m.absorb (m.log.note submitted reply)) [⟨submitted, reply.abort⟩] := by
  refine ⟨?_, ?_, fun haborted call hcall => ?_, List.pairwise_singleton _ _⟩
  · rw [log_absorb]
    rfl
  · rw [aborted_absorb, List.any_cons, List.any_nil, Bool.or_false]
    rfl
  · rw [List.mem_singleton.mp hcall]
    exact hsilent haborted

/-- Some calls to the log, none of which has a buffer written. -/
def Asks (m m' : Mount (Observed σ)) : Prop := ∃ new, m.Calls m' new ∧ LogCall.buffers new = []

theorem Asks.of_eq {m m' : Mount (Observed σ)} (hlog : m'.log = m.log)
    (haborted : m'.journal.aborted = m.journal.aborted) : m.Asks m' :=
  ⟨[], .of_eq hlog haborted, rfl⟩

theorem Asks.trans {m m' m'' : Mount (Observed σ)} (h : m.Asks m') (h' : m'.Asks m'') :
    m.Asks m'' := by
  rcases h with ⟨new, hcalls, hnone⟩
  rcases h' with ⟨new', hcalls', hnone'⟩
  refine ⟨new ++ new', hcalls.trans hcalls', ?_⟩
  rw [LogCall.buffers, List.filterMap_append]
  change LogCall.buffers new ++ LogCall.buffers new' = []
  rw [hnone, hnone', List.append_nil]

-- Calls that have nothing written leave the list of the buffers alone.
theorem Asks.buffers_eq {m m' : Mount (Observed σ)} (h : m.Asks m') :
    LogCall.buffers m'.log.calls = LogCall.buffers m.log.calls := by
  rcases h with ⟨new, hcalls, hnone⟩
  rw [hcalls.buffers_eq, hnone, List.append_nil]

variable [LogService σ]

theorem asks_request {m m' : Mount (Observed σ)} {answer : Option BufferId}
    (h : m.request = (answer, m')) : m.Asks m' := by
  have hcall := calls_absorb m (fun _ => rfl) (LogService.request m.log.log)
  have hm' : m' = m.request.2 := by rw [h]
  rw [hm']
  refine ⟨[⟨none, (LogService.request m.log.log).abort⟩], ?_, rfl⟩
  simp only [request]
  split
  · exact hcall
  · exact ⟨hcall.calls_eq, hcall.aborted_eq, hcall.silent, hcall.pairwise⟩

theorem asks_file (m : Mount (Observed σ)) (tid : Tid) (id : BufferId) :
    m.Asks (m.file tid id) := by
  have hcall := calls_absorb m (fun _ => rfl) (LogService.file m.log.log tid id (m.store.get id))
  refine ⟨[⟨none, (LogService.file m.log.log tid id (m.store.get id)).abort⟩], ?_, rfl⟩
  simp only [file]
  split
  · exact hcall
  · exact ⟨hcall.calls_eq, hcall.aborted_eq, hcall.silent, hcall.pairwise⟩

-- Opening a descriptor takes two calls.
theorem asks_opened {m m₁ : Mount (Observed σ)} {id : BufferId}
    (hrequest : m.request = (some id, m₁)) (data : Bytes) (tid : Tid) :
    m.Asks ((m₁.modifyBuffer id (·.setData data)).file tid id) := by
  have hset : m₁.Asks (m₁.modifyBuffer id (·.setData data)) := .of_eq rfl rfl
  exact ((asks_request hrequest).trans hset).trans (asks_file _ tid id)

theorem calls_submit (m : Mount (Observed σ)) (haborted : m.journal.aborted = false)
    (id : BufferId) : ∃ abort, m.Calls (m.submit id) [⟨some (m.store.get id), abort⟩] := by
  refine ⟨_, calls_absorb m (fun h => ?_) (LogService.submit m.log.log id (m.store.get id))⟩
  rw [haborted] at h
  exact absurd h Bool.false_ne_true

end Mount

namespace Draft

variable {σ : Type} [LogService σ] {tid : Tid} {width : RecordWidth} {done rs : List Record}
  {d d' : Draft (Observed σ)}

/-- The calls of a step. Before a descriptor is handed to the log, it is looked at whether
    the journal was aborted. -/
theorem Step.calls (h : Step tid width d rs d') : ∃ new, d.mount.Calls d'.mount new := by
  cases h with
  | count => exact ⟨_, .of_eq rfl rfl⟩
  | drop r _ => exact ⟨_, .of_eq rfl rfl⟩
  | refused m e hcur hrequest =>
      rcases Mount.asks_request hrequest with ⟨new, hcalls, _⟩
      exact ⟨_, hcalls.trans (.of_eq rfl rfl)⟩
  | unopened id m data cause e hcur hrequest hopen =>
      rcases Mount.asks_request hrequest with ⟨new, hcalls, _⟩
      exact ⟨_, hcalls.trans (.of_eq rfl rfl)⟩
  | opened id m m' data hcur hrequest hopen hfile =>
      rcases Mount.asks_opened hrequest data tid with ⟨new, hcalls, _⟩
      exact ⟨new, hfile ▸ hcalls⟩
  | unfit desc r cause e hcur hroom hadd => exact ⟨_, .of_eq rfl rfl⟩
  | added desc desc' r hcur hroom hadd => exact ⟨_, .of_eq rfl rfl⟩
  | lost desc e hcur habort => exact ⟨_, .of_eq rfl rfl⟩
  | unclosed desc data cause e hcur habort hclose => exact ⟨_, .of_eq rfl rfl⟩
  | submitted desc data e hcur habort hclose =>
      let closed := (d.mount.modifyBuffer desc.buffer
        (fun b => ((b.setData data).setLogWrite true).setDirty false)).emit e
      have hclosed : d.mount.Calls closed [] := .of_eq rfl rfl
      rcases Mount.calls_submit closed habort desc.buffer with ⟨abort, hcalls⟩
      exact ⟨_, hclosed.trans hcalls⟩

theorem Steps.calls (h : Steps tid width d rs d') : ∃ new, d.mount.Calls d'.mount new := by
  induction h with
  | refl => exact ⟨[], .of_eq rfl rfl⟩
  | snoc _ hstep ih =>
      rcases ih with ⟨new, hcalls⟩
      rcases hstep.calls with ⟨new', hcalls'⟩
      exact ⟨new ++ new', hcalls.trans hcalls'⟩

end Draft

/-- The blocks of the entries that are read in a buffer. -/
def Buffer.entries (width : RecordWidth) (buffer : Buffer) : List BlockNumber :=
  match RevokeBlock.parse buffer.data width with
  | .ok r => r.blocks
  | .error _ => []

namespace Draft

/-- The descriptor being filled has its header, if the log has left it room for one. -/
def Headed {σ : Type} (d : Draft σ) (tid : Tid) : Prop :=
  ∀ desc, d.current = some desc →
    revokeHeaderSize ≤ (d.mount.store.get desc.buffer).data.length →
    Header.read (d.mount.store.get desc.buffer).data = .ok ⟨BlockKind.revoke.code, tid⟩

section

variable {σ : Type} [LogService σ] {tid : Tid} {width : RecordWidth} {rs : List Record}
  {d d' : Draft σ}

omit [LogService σ] in
theorem headed_of_none (h : d.current = none) (tid : Tid) : d.Headed tid := by
  intro desc hdesc
  rw [h] at hdesc
  exact absurd hdesc (by simp only [reduceCtorEq, not_false_eq_true])

theorem Step.headed (h : Step tid width d rs d') (hd : d.Headed tid) : d'.Headed tid := by
  cases h with
  | count => exact hd
  | drop r _ => exact hd
  | refused m e hcur hrequest =>
      refine headed_of_none ?_ tid
      exact hcur
  | unopened id m data cause e hcur hrequest hopen =>
      refine headed_of_none ?_ tid
      exact hcur
  | opened id m m' data hcur hrequest hopen hfile =>
      intro desc hdesc hroom
      rw [← Option.some.inj hdesc] at hroom ⊢
      rcases (Mount.buffer_opened hrequest data tid).2 with ⟨len, hdata⟩
      rw [hfile] at hdata
      change revokeHeaderSize ≤ (m'.store.get id).data.length at hroom
      change Header.read (m'.store.get id).data = _
      rw [hdata] at hroom ⊢
      rw [Header.read_take (Nat.le_trans (by decide) hroom)]
      exact (openRevoke_eq_ok hopen).2
  | unfit desc r cause e hcur hroom hadd => exact hd
  | added desc desc' r hcur hroom hadd =>
      intro new hnew
      rw [← Option.some.inj hnew, OpenDescriptor.buffer_add hadd]
      exact hd desc hcur
  | lost desc e hcur habort => exact headed_of_none rfl tid
  | unclosed desc data cause e hcur habort hclose => exact headed_of_none rfl tid
  | submitted desc data e hcur habort hclose => exact headed_of_none rfl tid

/-- The blocks of the entries in the descriptor being filled. -/
def pending (d : Draft σ) : List BlockNumber :=
  match d.current with
  | some desc => desc.blocks.reverse
  | none => []

omit [LogService σ] in
theorem pending_of_some {desc : OpenDescriptor} (h : d.current = some desc) :
    d.pending = desc.blocks.reverse := by
  simp only [pending, h]

omit [LogService σ] in
theorem pending_of_none (h : d.current = none) : d.pending = [] := by
  simp only [pending, h]

end

/-- The counts of a commit that is done with the records `done` and has handed the buffers
    `sent` to the log. -/
structure Accounted {σ : Type} (d : Draft σ) (tid : Tid) (width : RecordWidth)
    (sent : List Buffer) (done : List Record) : Prop where
  -- What was handed to the log can be read.
  parsed : ∀ buffer ∈ sent,
    RevokeBlock.parse buffer.data width = .ok ⟨tid, buffer.entries width⟩
  -- The descriptors are counted.
  descriptors_eq : d.stats.descriptors = sent.length
  -- So are their entries.
  written_eq : d.stats.written = (sent.flatMap (Buffer.entries width)).length
  -- The other records are in the descriptor being filled, or they are counted as dropped.
  total_eq : d.stats.written + d.stats.dropped + d.pending.length = done.length
  -- The entries are the blocks of records, in the order of the records.
  sublist : (sent.flatMap (Buffer.entries width) ++ d.pending).Sublist (done.map Record.block)

section

variable {σ : Type} {tid : Tid} {width : RecordWidth} {sent : List Buffer}
  {done rs : List Record} {d d' : Draft σ}

-- A step that hands nothing to the log: a record goes into the descriptor being filled, or
-- is counted as dropped, as are those in a descriptor that is given up.
theorem Accounted.update (hd : d.Accounted tid width sent done)
    (hdescriptors : d'.stats.descriptors = d.stats.descriptors)
    (hwritten : d'.stats.written = d.stats.written)
    (hcount : d'.stats.dropped + d'.pending.length =
      d.stats.dropped + d.pending.length + rs.length)
    (hpending : d'.pending.Sublist (d.pending ++ rs.map Record.block)) :
    d'.Accounted tid width sent (done ++ rs) := by
  refine ⟨hd.parsed, hdescriptors.trans hd.descriptors_eq, hwritten.trans hd.written_eq, ?_, ?_⟩
  · have htotal := hd.total_eq
    rw [List.length_append, hwritten]
    omega
  · rw [List.map_append]
    refine ((List.Sublist.refl _).append hpending).trans ?_
    rw [← List.append_assoc]
    exact hd.sublist.append (List.Sublist.refl _)

-- A step that hands the descriptor being filled to the log.
theorem Accounted.submit (hd : d.Accounted tid width sent done) {desc : OpenDescriptor}
    (hcur : d.current = some desc) (hentries : desc.entries = desc.blocks.length)
    {buffer : Buffer}
    (hparse : RevokeBlock.parse buffer.data width = .ok ⟨tid, desc.blocks.reverse⟩)
    (hdone : d'.current = none) (hdescriptors : d'.stats.descriptors = d.stats.descriptors + 1)
    (hwritten : d'.stats.written = d.stats.written + desc.entries)
    (hdropped : d'.stats.dropped = d.stats.dropped) :
    d'.Accounted tid width (sent ++ [buffer]) done := by
  have hpending := pending_of_some hcur
  have hnone := pending_of_none hdone
  have hlisted : buffer.entries width = desc.blocks.reverse := by
    simp only [Buffer.entries, hparse]
  have hflat : (sent ++ [buffer]).flatMap (Buffer.entries width) =
      sent.flatMap (Buffer.entries width) ++ d.pending := by
    rw [List.flatMap_append, List.flatMap_singleton, hlisted, hpending]
  have hlen : d.pending.length = desc.entries := by
    rw [hpending, List.length_reverse, hentries]
  refine ⟨fun b hb => ?_, ?_, ?_, ?_, ?_⟩
  · rcases List.mem_append.mp hb with hb | hb
    · exact hd.parsed b hb
    · rw [List.mem_singleton.mp hb, hlisted]
      exact hparse
  · rw [hdescriptors, hd.descriptors_eq, List.length_append, List.length_singleton]
  · rw [hwritten, hd.written_eq, hflat, List.length_append, hlen]
  · have htotal := hd.total_eq
    rw [hwritten, hdropped, hnone, List.length_nil]
    omega
  · rw [hnone, List.append_nil, hflat]
    exact hd.sublist

end

section

variable {σ : Type} [LogService σ] {tid : Tid} {width : RecordWidth} {done rs : List Record}
  {d d' : Draft (Observed σ)}

-- A descriptor that was closed is read as its entries when it is handed to the log.
omit [LogService σ] in
theorem parse_closed (hfilling : d.Filling width done) (hheaded : d.Headed tid)
    {desc : OpenDescriptor} (hcur : d.current = some desc) {data : Bytes}
    (hclose : desc.close (d.mount.store.get desc.buffer).data = (.ok (), data)) (e : Event) :
    RevokeBlock.parse (((d.mount.modifyBuffer desc.buffer
        (fun b => ((b.setData data).setLogWrite true).setDirty false)).emit e).store.get
          desc.buffer).data width = .ok ⟨tid, desc.blocks.reverse⟩ := by
  have hdesc := hfilling desc hcur
  rcases hdesc.layout with ⟨_, hroom, heq⟩
  -- It can be closed, so there was room for its header.
  have hheader := Nat.le_trans (Nat.le_add_right _ _)
    (RevokeBlock.room_of_close hroom (heq.symm.trans hclose))
  rw [Mount.store_emit, Mount.data_closed hdesc.lt_size]
  exact hdesc.parse_close hclose (hheaded desc hcur hheader)

/-- No step loses count. -/
theorem Step.accounted (h : Step tid width d rs d') (hfilling : d.Filling width done)
    (hheaded : d.Headed tid)
    (hd : d.Accounted tid width (LogCall.buffers d.mount.log.calls) done) :
    d'.Accounted tid width (LogCall.buffers d'.mount.log.calls) (done ++ rs) := by
  -- What is given up with a descriptor is what was pending.
  have hgiven : ∀ desc, d.current = some desc → d.pending.length = desc.entries := by
    intro desc hcur
    rw [pending_of_some hcur, List.length_reverse, (hfilling desc hcur).entries_eq]
  cases h with
  | count => exact hd.update rfl rfl rfl (List.sublist_append_left _ _)
  | drop r _ =>
      refine hd.update rfl rfl ?_ (List.sublist_append_left _ _)
      change d.stats.dropped + 1 + d.pending.length = _
      rw [List.length_singleton]
      omega
  | refused m e hcur hrequest =>
      change Accounted _ tid width (LogCall.buffers m.log.calls) _
      rw [(Mount.asks_request hrequest).buffers_eq]
      exact hd.update rfl rfl rfl (List.sublist_append_left _ _)
  | unopened id m data cause e hcur hrequest hopen =>
      change Accounted _ tid width (LogCall.buffers m.log.calls) _
      rw [(Mount.asks_request hrequest).buffers_eq]
      exact hd.update rfl rfl rfl (List.sublist_append_left _ _)
  | opened id m m' data hcur hrequest hopen hfile =>
      have hasks := Mount.asks_opened hrequest data tid
      rw [hfile] at hasks
      change Accounted _ tid width (LogCall.buffers m'.log.calls) _
      rw [hasks.buffers_eq]
      -- Nothing was pending, and nothing is.
      refine hd.update rfl rfl ?_ (List.nil_sublist _)
      rw [pending_of_none hcur]
      rfl
  | unfit desc r cause e hcur hroom hadd =>
      refine hd.update rfl rfl ?_ (List.sublist_append_left _ _)
      change d.stats.dropped + 1 + d.pending.length = _
      rw [List.length_singleton]
      omega
  | added desc desc' r hcur hroom hadd =>
      have hpending : ({ d with current := some desc' } : Draft (Observed σ)).pending =
          d.pending ++ [r.block] := by
        rw [pending_of_some rfl, pending_of_some hcur, (OpenDescriptor.add_eq_ok hadd).2,
          List.reverse_cons]
      refine hd.update rfl rfl ?_ (hpending ▸ List.Sublist.refl _)
      rw [hpending, List.length_append, List.length_singleton, List.length_singleton,
        Nat.add_assoc]
  | lost desc e hcur habort =>
      refine hd.update rfl rfl ?_ (List.nil_sublist _)
      rw [hgiven desc hcur]
      rfl
  | unclosed desc data cause e hcur habort hclose =>
      refine hd.update rfl rfl ?_ (List.nil_sublist _)
      rw [hgiven desc hcur]
      rfl
  | submitted desc data e hcur habort hclose =>
      let closed := (d.mount.modifyBuffer desc.buffer
        (fun b => ((b.setData data).setLogWrite true).setDirty false)).emit e
      have hclosed : d.mount.Calls closed [] := .of_eq rfl rfl
      rcases Mount.calls_submit closed habort desc.buffer with ⟨abort, hcalls⟩
      have hsent := (hclosed.trans hcalls).buffers_eq
      have hparse := parse_closed hfilling hheaded hcur hclose e
      rw [List.append_nil]
      change Accounted _ tid width (LogCall.buffers (closed.submit desc.buffer).log.calls) _
      rw [hsent]
      exact hd.submit hcur (hfilling desc hcur).entries_eq hparse rfl rfl rfl rfl

theorem Steps.headed (h : Steps tid width d rs d') (hd : d.Headed tid) : d'.Headed tid := by
  induction h with
  | refl => exact hd
  | snoc _ hstep ih => exact hstep.headed ih

theorem Steps.accounted (h : Steps tid width d rs d') (hfilling : d.Filling width done)
    (hheaded : d.Headed tid)
    (hd : d.Accounted tid width (LogCall.buffers d.mount.log.calls) done) :
    d'.Accounted tid width (LogCall.buffers d'.mount.log.calls) (done ++ rs) := by
  induction h with
  | refl =>
      rw [List.append_nil]
      exact hd
  | snoc hsteps hstep ih =>
      rw [← List.append_assoc]
      exact hstep.accounted (hsteps.filling hfilling) (hsteps.headed hheaded) ih

end

section

variable {σ : Type} [LogService σ] (tid : Tid) (width : RecordWidth)

-- Only writing a record counts it.
theorem records_closeCurrent (d : Draft σ) : d.closeCurrent.stats.records = d.stats.records := by
  unfold closeCurrent
  split
  · rfl
  · simp only [flush]
    repeat' split
    all_goals rfl

theorem records_makeRoom (d : Draft σ) : d.makeRoom.stats.records = d.stats.records := by
  unfold makeRoom
  split
  · rfl
  · split
    · exact records_closeCurrent d
    · rfl

theorem records_ensureOpen (d : Draft σ) :
    (d.ensureOpen tid width).stats.records = d.stats.records := by
  simp only [ensureOpen, openNew]
  repeat' split
  all_goals rfl

omit [LogService σ] in
theorem records_append (d : Draft σ) (desc : OpenDescriptor) (b : BlockNumber) :
    (d.append desc b).stats.records = d.stats.records := by
  unfold append
  split
  · rfl
  · rfl

theorem records_put (d : Draft σ) (r : Record) :
    (d.put tid width r).stats.records = d.stats.records := by
  have hopened : (d.makeRoom.ensureOpen tid width).stats.records = d.stats.records :=
    (records_ensureOpen tid width _).trans (records_makeRoom d)
  simp only [put]
  split
  · exact hopened
  · exact (records_append _ _ _).trans hopened

theorem records_write (d : Draft σ) (r : Record) :
    (write tid width d r).stats.records = d.stats.records + 1 := by
  simp only [write]
  split
  · rfl
  · exact records_put tid width d.count r

theorem records_foldl (d : Draft σ) (rs : List Record) :
    (rs.foldl (write tid width) d).stats.records = d.stats.records + rs.length := by
  induction rs generalizing d with
  | nil => rfl
  | cons r rs ih =>
      rw [List.foldl_cons, ih, records_write, List.length_cons]
      omega

end

end Draft

namespace Mount

variable {σ : Type} [LogService σ]

/-- A commit counts every record of the table. -/
theorem records_commit (m : Mount σ) (tid : Tid) :
    (m.commit tid).1.records = m.journal.table.records.length := by
  change (Draft.closeCurrent _).stats.records = _
  rw [Draft.records_closeCurrent, Draft.records_foldl]
  exact Nat.zero_add _

end Mount

/-- A table that calls to a journal with these settings have built, over any log. -/
inductive Table.Built (config : Config) : Table → Prop
  | run {σ : Type} [LogService σ] {build : Build} {n : Nat} {store : Store} {log : σ}
      {m : Mount σ} (hstore : Store.create n = .ok store)
      (hmount : Mount.create build config store log = .ok m) (calls : List Call) :
      Built config (m.run calls).journal.table

/-- Every table that was built is a map of blocks that fit the entries of the log. -/
theorem Table.Built.sound {config : Config} {t : Table} (h : t.Built config) :
    t.IsMap ∧ ∀ b, t.Holds b → config.recordWidth.fits b = true := by
  cases h with
  | run hstore hmount calls =>
      have hsound := (Mount.sound_create hstore hmount).1.run calls
      exact ⟨hsound.isMap, hsound.fits⟩

namespace Mount

variable {σ : Type} [LogService σ]

-- The table of a journal that was mounted, after some calls.
theorem built_run {build : Build} {config : Config} {n : Nat} {store : Store} {log : σ}
    {m : Mount σ} (hstore : Store.create n = .ok store)
    (hmount : create build config store log = .ok m) (calls : List Call) :
    (m.run calls).journal.table.Built (m.run calls).journal.config := by
  rw [((sound_create hstore hmount).1.run calls).config_eq]
  exact .run hstore hmount calls

/-- The buffers that a commit has its log write, as they are then. -/
def commitBuffers (m : Mount σ) (tid : Tid) : List Buffer := LogCall.buffers (m.commitCalls tid)

/-- The blocks of the entries in these buffers. -/
def commitEntries (m : Mount σ) (tid : Tid) : List BlockNumber :=
  (m.commitBuffers tid).flatMap (Buffer.entries m.journal.config.recordWidth)

/-- What a commit accounts for. -/
structure Account (m : Mount σ) (tid : Tid) : Prop where
  -- The calls are those of the commit: it is the same when its log is observed.
  observed_eq : m.commit tid = (m.observed.commit tid).map id (exchange Observed.log)
  -- The table is empty.
  records_nil : (m.commit tid).2.journal.table.records = [] ∧
    (m.commit tid).2.journal.table.len = 0
  -- Every record was counted.
  records_eq : (m.commit tid).1.records = m.journal.table.len
  -- Each was written or dropped, and not both.
  total_eq : (m.commit tid).1.records = (m.commit tid).1.written + (m.commit tid).1.dropped
  -- If the journal was aborted before, nothing was handed to the log.
  silent : m.journal.aborted = true → m.commitBuffers tid = []
  -- Nothing was handed to the log after it aborted the journal.
  pairwise : (m.commitCalls tid).Pairwise fun call later =>
    call.aborts = true → later.submitted = none
  -- The descriptors that were handed to the log were counted.
  descriptors_eq : (m.commitBuffers tid).length = (m.commit tid).1.descriptors
  -- They are read as descriptors of the transaction.
  parsed : ∀ buffer ∈ m.commitBuffers tid,
    RevokeBlock.parse buffer.data m.journal.config.recordWidth =
      .ok ⟨tid, buffer.entries m.journal.config.recordWidth⟩
  -- Their entries are the records that were written.
  written_eq : (m.commitEntries tid).length = (m.commit tid).1.written
  -- They are in the order in which the table was drained.
  sublist : (m.commitEntries tid).Sublist (m.journal.table.records.map Record.block)
  -- No block is listed twice.
  nodup : (m.commitEntries tid).Nodup
  -- The blocks that are listed had a record.
  mem : ∀ b ∈ m.commitEntries tid, m.journal.table.Holds b

-- When a commit comes to its end it has nothing left to write, and its counts are right.
theorem commit_accounted (m : Mount σ) (tid : Tid) :
    ∃ d : Draft (Observed σ), (m.commit tid).1 = d.stats ∧ d.pending = [] ∧
      m.observed.drainTable.2.Calls d.mount (m.commitCalls tid) ∧
      d.Accounted tid m.journal.config.recordWidth (m.commitBuffers tid)
        m.journal.table.records := by
  -- What the log sees is followed over the steps of the commit.
  rcases Draft.steps_commit m.observed tid with ⟨d, e, hsteps, hcur, heq⟩
  have hstats : (m.commit tid).1 = d.stats := by
    rw [commit_observed, heq]
    rfl
  have hcalls : m.commitCalls tid = d.mount.log.calls := by
    rw [commitCalls, heq]
    rfl
  rcases hsteps.calls with ⟨new, hnew⟩
  have hlog : d.mount.log.calls = new := hnew.calls_eq
  have hstart : Draft.Accounted (⟨m.observed.drainTable.2, {}, none⟩ : Draft (Observed σ)) tid
      m.journal.config.recordWidth [] [] :=
    ⟨fun _ h => absurd h List.not_mem_nil, rfl, rfl, rfl, List.Sublist.refl _⟩
  have hd : d.Accounted tid m.journal.config.recordWidth (LogCall.buffers d.mount.log.calls)
      m.journal.table.records :=
    hsteps.accounted (Draft.filling_of_none rfl []) (Draft.headed_of_none rfl tid) hstart
  refine ⟨d, hstats, Draft.pending_of_none hcur, ?_, ?_⟩
  · rw [hcalls, hlog]
    exact hnew
  · rw [commitBuffers, hcalls]
    exact hd

/-- A commit counts every record as written or as dropped, and none as both. -/
theorem total_commit (m : Mount σ) (tid : Tid) :
    (m.commit tid).1.written + (m.commit tid).1.dropped = m.journal.table.records.length := by
  rcases m.commit_accounted tid with ⟨d, hstats, hpending, _, hd⟩
  have htotal := hd.total_eq
  rw [hpending, List.length_nil, Nat.add_zero] at htotal
  rw [hstats, htotal]

-- The account of a commit, less what concerns the pool.
theorem account_of_isMap {m : Mount σ} (hmap : m.journal.table.IsMap) (tid : Tid) :
    m.Account tid := by
  rcases m.commit_accounted tid with ⟨d, hstats, hpending, hnew, hd⟩
  have hsublist : (m.commitEntries tid).Sublist (m.journal.table.records.map Record.block) := by
    have hall := hd.sublist
    rw [hpending, List.append_nil] at hall
    exact hall
  have hrecords := m.records_commit tid
  refine ⟨m.commit_observed tid, ?_, ?_, ?_, fun haborted => ?_, hnew.pairwise, ?_, hd.parsed, ?_,
    hsublist, hsublist.nodup hmap.unique,
    fun b hb => (Table.holds_iff_mem hmap).mpr (hsublist.subset hb)⟩
  · rw [m.table_commit tid]
    exact ⟨Table.records_emptied _, rfl⟩
  · rw [hrecords, hmap.len_eq]
  · rw [hrecords, m.total_commit tid]
  · rw [commitBuffers, LogCall.buffers, List.filterMap_eq_nil_iff]
    exact hnew.silent haborted
  · rw [hstats, hd.descriptors_eq]
  · rw [commitEntries, hstats, hd.written_eq]

-- A commit that handed nothing to the log has dropped every record.
theorem Account.stats_of_silent {m : Mount σ} {tid : Tid} (h : m.Account tid)
    (hsent : m.commitBuffers tid = []) :
    (m.commit tid).1 = ⟨m.journal.table.len, 0, m.journal.table.len, 0⟩ := by
  have hwritten : (m.commit tid).1.written = 0 := by
    rw [← h.written_eq, commitEntries, hsent]
    rfl
  have hdescriptors : (m.commit tid).1.descriptors = 0 := by
    rw [← h.descriptors_eq, hsent]
    rfl
  have hdropped : (m.commit tid).1.dropped = m.journal.table.len := by
    rw [← h.records_eq, h.total_eq, hwritten, Nat.zero_add]
  calc (m.commit tid).1
      = ⟨(m.commit tid).1.records, (m.commit tid).1.written, (m.commit tid).1.dropped,
          (m.commit tid).1.descriptors⟩ := rfl
    _ = _ := by rw [h.records_eq, hwritten, hdropped, hdescriptors]

/-- Whatever the log does, a commit accounts for every record of a table that was built by
    calls, and the pool that paid for them gets all of them back. -/
theorem commit_accounts (m : Mount σ) (hbuilt : m.journal.table.Built m.journal.config)
    (hpaid : m.journal.table.len ≤ m.pool.inUse) (tid : Tid) :
    m.Account tid ∧
      (m.commit tid).2.pool.inUse + m.journal.table.len = m.pool.inUse := by
  rcases m.commit_core tid with ⟨store, counters, _, hcore⟩
  have hpool : (m.commit tid).2.pool = m.pool.release m.journal.table.len :=
    congrArg Mount.pool hcore
  refine ⟨account_of_isMap hbuilt.sound.1 tid, ?_⟩
  rw [hpool, Pool.release, if_pos hpaid]
  exact Nat.sub_add_cancel hpaid

end Mount

/-- The settings of a small journal with two buckets and no limit. -/
def twoBuckets : Config := { smallConfig with revokeHashSize := 2, recordLimit := none }

/-- A small journal over a log that follows a script, just mounted. -/
def scriptedMount (script : Script) : Mount ScriptedLog :=
  { build := .release
    journal := ⟨twoBuckets, smallStore.blockSize, 0, false, ⟨1, #[[], []], 0⟩, {}⟩
    pool := Pool.new none
    store := smallStore
    log := { script := script }
    trace := #[.tableCreated 2 1024 .narrow] }

theorem create_scriptedMount (script : Script) :
    Mount.create .release twoBuckets smallStore { script := script } = .ok (scriptedMount script) :=
  rfl

/-- One transaction revokes seven blocks. -/
def sevenRevokes : List Call :=
  [1, 2, 3, 4, 5, 6, 7].map fun n => .revoke ⟨5⟩ (BlockNumber.ofNat n) none

/-- The log refuses the first request, hands out descriptors for two entries, and aborts the
    journal when the second of these is written. -/
def refusingMount : Mount ScriptedLog :=
  (scriptedMount { size := 24, deny := [0], abortSubmit := some 1 }).run sevenRevokes

-- One record finds no descriptor, four are written, and two come too late: the first of
-- them is put into a third descriptor, which is given up.
theorem commit_accounts_refusingMount :
    refusingMount.Account ⟨5⟩ ∧ (refusingMount.commit ⟨5⟩).1 = ⟨7, 4, 3, 2⟩ ∧
      (refusingMount.commit ⟨5⟩).2.pool.inUse + 7 = refusingMount.pool.inUse := by
  have hmount := create_scriptedMount { size := 24, deny := [0], abortSubmit := some 1 }
  have hsound := (Mount.sound_create create_smallStore hmount).1.run sevenRevokes
  have hbuilt := Mount.built_run create_smallStore hmount sevenRevokes
  rcases Mount.commit_accounts refusingMount hbuilt (Nat.le_of_eq hsound.paid.symm) ⟨5⟩ with
    ⟨haccount, hpool⟩
  have hlen : refusingMount.journal.table.len = 7 := by decide +kernel
  refine ⟨haccount, ?_, hlen ▸ hpool⟩
  decide +kernel

end BlockJournal
