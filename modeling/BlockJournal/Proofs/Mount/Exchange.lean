import BlockJournal.Proofs.Calls

/-!
# Exchanging the Log

A journal knows its log by the answers it gets.

If every state of one log has a state of another that answers all calls alike, then
a mount over the first log and the mount over the second make the same moves: each
call leaves them in states that correspond again. `LogService.Alike` says the first,
and `run_exchange` the second. So a log may be put in the place of another to learn
more about a run than the other would tell.

Most operations never look at the log. Each of them commutes with the exchange by its
definition, and so does each of the four calls, by what is known about the logs. The
rest is built from these.

## Main definitions

* `LogService.Alike`: States of one log that answer like those of another.
* `Mount.exchange`, `Draft.exchange`: The same with another log.

## Theorems

* `forget_exchange`, `request_exchange`, `file_exchange`, `submit_exchange`: Calls to
  the log.
* `revoke_exchange`, `cancel_exchange`, `commit_exchange`: What a journal does.
* `after_exchange`, `run_exchange`: Calls and runs.
-/

namespace BlockJournal

variable {σ τ : Type}

/-- The same answer from another log. -/
def Reply.exchange {α : Type} (φ : σ → τ) (reply : Reply σ α) : Reply τ α :=
  ⟨reply.value, φ reply.next, reply.abort, reply.events⟩

/-- The log in the state `φ s` answers every call as the one in the state `s` does, and
    they go on to states that correspond again. -/
structure LogService.Alike [LogService σ] [LogService τ] (φ : σ → τ) : Prop where
  -- A buffer is taken off the lists of a transaction.
  forget_eq : ∀ s tid b, LogService.forget (φ s) tid b = (LogService.forget s tid b).exchange φ
  -- A descriptor is needed.
  request_eq : ∀ s, LogService.request (φ s) = (LogService.request s).exchange φ
  -- A descriptor is filed under a transaction.
  file_eq : ∀ s tid id b,
    LogService.file (φ s) tid id b = (LogService.file s tid id b).exchange φ
  -- A buffer is to be written.
  submit_eq : ∀ s id b, LogService.submit (φ s) id b = (LogService.submit s id b).exchange φ

namespace Mount

/-- The mount with another log. -/
def exchange (φ : σ → τ) (m : Mount σ) : Mount τ :=
  { build := m.build
    journal := m.journal
    pool := m.pool
    store := m.store
    log := φ m.log
    trace := m.trace }

-- Nothing that every call keeps has to do with the log.
theorem Sound.exchange {m : Mount σ} {config : Config} {cache : BlockSize}
    (hm : m.Sound config cache) (φ : σ → τ) : (m.exchange φ).Sound config cache :=
  ⟨hm.config_eq, hm.bytes_eq, hm.cache_eq, hm.isMap, hm.fits, hm.paid, hm.limit_eq, hm.coherent⟩

variable (φ : σ → τ)

-- What never looks at the log.
theorem emit_exchange (m : Mount σ) (e : Event) :
    (m.exchange φ).emit e = (m.emit e).exchange φ := rfl

theorem modifyBuffer_exchange (m : Mount σ) (id : BufferId) (f : Buffer → Buffer) :
    (m.exchange φ).modifyBuffer id f = (m.modifyBuffer id f).exchange φ := rfl

theorem abort_exchange (m : Mount σ) : (m.exchange φ).abort = m.abort.exchange φ := by
  unfold abort
  change (if m.journal.aborted = true then _ else _) = _
  split
  · rfl
  · rfl

theorem absorb_exchange {α : Type} (m : Mount σ) (reply : Reply σ α) :
    (m.exchange φ).absorb (reply.exchange φ) = (m.absorb reply).exchange φ := by
  simp only [absorb]
  change (if reply.abort = true then _ else _) = _
  split
  · exact abort_exchange φ ({ m with log := reply.next }.emitAll reply.events)
  · rfl

theorem addFeatures_exchange (m : Mount σ) (bits : UInt32) :
    (m.exchange φ).addFeatures bits = (m.addFeatures bits).map id (exchange φ) := by
  by_cases h : m.journal.features &&& bits = bits
  · have h' : (m.exchange φ).journal.features &&& bits = bits := h
    simp only [addFeatures, h, h', if_true]
    rfl
  · have h' : ¬ (m.exchange φ).journal.features &&& bits = bits := h
    have hformat : (m.exchange φ).journal.config.format = m.journal.config.format := rfl
    simp only [addFeatures, h, h', if_false, hformat]
    cases m.journal.config.format with
    | v1 => rfl
    | v2 => rfl

theorem check_exchange (m : Mount σ) (v : Violation) (holds : Bool) :
    (m.exchange φ).check v holds = (m.check v holds).map id (exchange φ) := by
  have hsettle : ∀ verdict, (m.exchange φ).settle v verdict =
      (m.settle v verdict).map id (exchange φ) := by
    rintro (_ | _ | _) <;> rfl
  exact hsettle _

theorem checkAlias_exchange (m : Mount σ) (block : BlockNumber) (given : Option BufferId) :
    (m.exchange φ).checkAlias block given = (m.checkAlias block given).map id (exchange φ) := by
  cases given with
  | none => rfl
  | some id =>
      by_cases he : m.journal.config.expensiveChecks = true
      · have he' : (m.exchange φ).journal.config.expensiveChecks = true := he
        have hagrees : (m.exchange φ).aliasAgrees block id = m.aliasAgrees block id := rfl
        simp only [checkAlias, he, he', if_true, hagrees, check_exchange]
        rcases m.check .cleanAlias (m.aliasAgrees block id) with ⟨stop | holds, m'⟩
        · rfl
        · rfl
      · have he' : ¬ (m.exchange φ).journal.config.expensiveChecks = true := he
        simp only [checkAlias, he, he']
        rfl

theorem prepare_exchange (m : Mount σ) (block : BlockNumber) (given : Option BufferId) :
    (m.exchange φ).prepare block given = (m.prepare block given).map id (exchange φ) := by
  have hneeded : (m.exchange φ).journal.config.neededFeatures =
      m.journal.config.neededFeatures := rfl
  simp only [prepare, hneeded, addFeatures_exchange]
  rcases m.addFeatures m.journal.config.neededFeatures with ⟨e | ⟨⟩, m'⟩
  · rfl
  · by_cases hfits : m'.journal.config.recordWidth.fits block = true
    · have hfits' : (m'.exchange φ).journal.config.recordWidth.fits block = true := hfits
      simp only [Prod.map, id, hfits, hfits', if_true, checkAlias_exchange]
    · have hfits' : ¬ (m'.exchange φ).journal.config.recordWidth.fits block = true := hfits
      simp only [Prod.map, id, hfits, hfits']
      rfl

theorem markRevoked_exchange (m : Mount σ) (held : Held) :
    (m.exchange φ).markRevoked held = (m.markRevoked held).exchange φ := by
  unfold markRevoked
  cases held.buffer? with
  | none => rfl
  | some id => rfl

theorem countRevoke_exchange (m : Mount σ) (refreshed : Bool) :
    (m.exchange φ).countRevoke refreshed = (m.countRevoke refreshed).exchange φ := by
  cases refreshed with
  | true => rfl
  | false => rfl

theorem record_exchange (m : Mount σ) (tid : Tid) (block : BlockNumber) :
    (m.exchange φ).record tid block = (m.record tid block).map id (exchange φ) := rfl

theorem takeBack_exchange (m : Mount σ) (tid : Tid) (block : BlockNumber) :
    (m.exchange φ).takeBack tid block = (m.takeBack tid block).map id (exchange φ) := by
  have htable : (m.exchange φ).journal.table = m.journal.table := rfl
  have hpool : (m.exchange φ).pool = m.pool := rfl
  simp only [takeBack, htable, hpool]
  cases m.journal.table.find block with
  | none => rfl
  | some h =>
      simp only []
      rcases m.journal.table.remove m.pool h with ⟨_ | r, table, pool⟩
      · rfl
      · rfl

theorem clearAlias_exchange (m : Mount σ) (id : BufferId) :
    (m.exchange φ).clearAlias id = (m.clearAlias id).exchange φ := by
  have hstore : (m.exchange φ).store = m.store := rfl
  simp only [clearAlias, hstore]
  split
  · rfl
  · split
    · rfl
    · split
      · rfl
      · rfl

theorem checkCancelled_exchange (m : Mount σ) (block : BlockNumber) :
    (m.exchange φ).checkCancelled block = (m.checkCancelled block).map id (exchange φ) := by
  have htable : (m.exchange φ).journal.table = m.journal.table := rfl
  by_cases he : m.journal.config.expensiveChecks = true
  · have he' : (m.exchange φ).journal.config.expensiveChecks = true := he
    simp only [checkCancelled, he, he', if_true, htable, check_exchange]
    rcases m.check .survivedCancel (m.journal.table.find block).isNone with ⟨stop | holds, m'⟩
    · rfl
    · rfl
  · have he' : ¬ (m.exchange φ).journal.config.expensiveChecks = true := he
    simp only [checkCancelled, he, he']
    rfl

/-- A cancel has nothing to ask of the log. -/
theorem cancel_exchange (m : Mount σ) (tid : Tid) (buffer : BufferId) :
    (m.exchange φ).cancel tid buffer = (m.cancel tid buffer).map id (exchange φ) := by
  have hstore : (m.exchange φ).store = m.store := rfl
  simp only [cancel, hstore, modifyBuffer_exchange]
  by_cases hneeded : (m.store.get buffer).mayBeRevoked = true
  · simp only [hneeded, if_true, takeBack_exchange]
    rcases (m.modifyBuffer buffer Buffer.markClean).takeBack tid (m.store.get buffer).block with
      ⟨removed, m₁⟩
    simp only [Prod.map, checkCancelled_exchange]
    rcases m₁.checkCancelled (m.store.get buffer).block with ⟨stop | ⟨⟩, m₂⟩
    · rfl
    · simp only [id, clearAlias_exchange]
  · let m₁ := (m.modifyBuffer buffer Buffer.markClean).countFastCancel
    have hfast : ((m.modifyBuffer buffer Buffer.markClean).exchange φ).countFastCancel =
        m₁.exchange φ := rfl
    simp only [hneeded, Bool.false_eq_true, if_false, hfast, checkCancelled_exchange, Prod.map]
    rcases m₁.checkCancelled (m.store.get buffer).block with ⟨stop | ⟨⟩, m₂⟩
    · rfl
    · rfl

-- What the cache does.
theorem getOrCreate_exchange (m : Mount σ) (block : BlockNumber) :
    (m.exchange φ).getOrCreate block = (m.getOrCreate block).map id (exchange φ) := by
  have hstore : (m.exchange φ).store = m.store := rfl
  simp only [getOrCreate, hstore, Prod.map, id]
  split
  · rfl
  · rfl

theorem readBuffer_exchange (m : Mount σ) (device : Device) (block : BlockNumber)
    (contended : Bool) :
    (m.exchange φ).readBuffer device block contended =
      (m.readBuffer device block contended).map id (exchange φ) := by
  have hstore : (m.exchange φ).store = m.store := rfl
  simp only [readBuffer, hstore, Prod.map, id]
  cases contended && m.store.reachesDevice device block with
  | true => rfl
  | false => rfl

theorem evict_exchange (m : Mount σ) (block : BlockNumber) :
    (m.exchange φ).evict block = (m.evict block).map id (exchange φ) := by
  have hstore : (m.exchange φ).store = m.store := rfl
  simp only [evict, hstore]
  rcases m.store.evict block with ⟨_ | buffer, store⟩
  · rfl
  · rfl

variable {φ} [LogService σ] [LogService τ]

-- The four calls.
theorem forget_exchange (hφ : LogService.Alike φ) (m : Mount σ) (tid : Tid) (buffer : BufferId) :
    (m.exchange φ).forget tid buffer = (m.forget tid buffer).exchange φ := by
  have hlog : (m.exchange φ).log = φ m.log := rfl
  have hstore : (m.exchange φ).store = m.store := rfl
  let reply := LogService.forget m.log tid (m.store.get buffer)
  simp only [forget, hlog, hstore, hφ.forget_eq, absorb_exchange]
  by_cases hvalue : reply.value = true
  · have hvalue' : (reply.exchange φ).value = true := hvalue
    rw [if_pos hvalue, if_pos hvalue', modifyBuffer_exchange]
  · have hvalue' : ¬ (reply.exchange φ).value = true := hvalue
    rw [if_neg hvalue, if_neg hvalue']

theorem request_exchange (hφ : LogService.Alike φ) (m : Mount σ) :
    (m.exchange φ).request = m.request.map id (exchange φ) := by
  have hlog : (m.exchange φ).log = φ m.log := rfl
  have hvalue : ((LogService.request m.log).exchange φ).value = (LogService.request m.log).value :=
    rfl
  simp only [request, hlog, hφ.request_eq, absorb_exchange, hvalue]
  rcases (LogService.request m.log).value with _ | ⟨block, size⟩
  · rfl
  · rfl

theorem request_exchange_eq (hφ : LogService.Alike φ) {m m' : Mount σ} {answer : Option BufferId}
    (h : m.request = (answer, m')) : (m.exchange φ).request = (answer, m'.exchange φ) := by
  rw [request_exchange hφ, h]
  rfl

theorem file_exchange (hφ : LogService.Alike φ) (m : Mount σ) (tid : Tid) (buffer : BufferId) :
    (m.exchange φ).file tid buffer = (m.file tid buffer).exchange φ := by
  have hlog : (m.exchange φ).log = φ m.log := rfl
  have hstore : (m.exchange φ).store = m.store := rfl
  have hvalue : ((LogService.file m.log tid buffer (m.store.get buffer)).exchange φ).value =
      (LogService.file m.log tid buffer (m.store.get buffer)).value := rfl
  simp only [file, hlog, hstore, hφ.file_eq, absorb_exchange, hvalue]
  cases (LogService.file m.log tid buffer (m.store.get buffer)).value with
  | none => rfl
  | some len => rfl

theorem submit_exchange (hφ : LogService.Alike φ) (m : Mount σ) (buffer : BufferId) :
    (m.exchange φ).submit buffer = (m.submit buffer).exchange φ := by
  have hlog : (m.exchange φ).log = φ m.log := rfl
  have hstore : (m.exchange φ).store = m.store := rfl
  simp only [submit, hlog, hstore, hφ.submit_eq, absorb_exchange]

theorem letGo_exchange (hφ : LogService.Alike φ) (m : Mount σ) (tid : Tid) (held : Held) :
    (m.exchange φ).letGo tid held = (m.letGo tid held).exchange φ := by
  cases held with
  | given buffer => exact forget_exchange hφ m tid buffer
  | found buffer => rfl
  | nothing => rfl

theorem proceed_exchange (hφ : LogService.Alike φ) (m : Mount σ) (tid : Tid) (block : BlockNumber)
    (held : Held) :
    (m.exchange φ).proceed tid block held = (m.proceed tid block held).map id (exchange φ) := by
  simp only [proceed, record_exchange]
  rcases m.record tid block with ⟨_ | e | refreshed, m'⟩
  · rfl
  · rfl
  · simp only [Prod.map, id, markRevoked_exchange, letGo_exchange hφ, countRevoke_exchange,
      emit_exchange]

theorem revoke_exchange (hφ : LogService.Alike φ) (m : Mount σ) (tid : Tid) (block : BlockNumber)
    (given : Option BufferId) :
    (m.exchange φ).revoke tid block given = (m.revoke tid block given).map id (exchange φ) := by
  rw [revoke_eq, revoke_eq, prepare_exchange]
  rcases m.prepare block given with ⟨stop | ⟨⟩, m₁⟩
  · rfl
  · have hhold : (m₁.exchange φ).hold block given = m₁.hold block given := rfl
    have hmarked : ∀ held, (m₁.exchange φ).isRevoked held = m₁.isRevoked held := fun _ => rfl
    simp only [Prod.map, id, hhold, hmarked, check_exchange]
    rcases m₁.check .revokedTwice (!m₁.isRevoked (m₁.hold block given)) with ⟨stop | twice, m₂⟩
    · rfl
    · cases twice with
      | false => simp only [letGo_exchange hφ]
      | true => simp only [id, proceed_exchange hφ, Prod.map]

end Mount

namespace Draft

/-- The commit with another log. -/
def exchange (φ : σ → τ) (d : Draft σ) : Draft τ := ⟨d.mount.exchange φ, d.stats, d.current⟩

open Mount

variable {φ : σ → τ} [LogService σ] [LogService τ]

theorem flush_exchange (hφ : LogService.Alike φ) (d : Draft σ) (desc : OpenDescriptor) :
    (d.exchange φ).flush desc = (d.flush desc).exchange φ := by
  have hmount : (d.exchange φ).mount = d.mount.exchange φ := rfl
  have hstore : (d.mount.exchange φ).store = d.mount.store := rfl
  by_cases haborted : d.mount.journal.aborted = true
  · have haborted' : (d.mount.exchange φ).journal.aborted = true := haborted
    simp only [flush, hmount, hstore, haborted, haborted', if_true]
    rfl
  · have haborted' : ¬ (d.mount.exchange φ).journal.aborted = true := haborted
    simp only [flush, hmount, hstore, haborted, haborted']
    rcases desc.close (d.mount.store.get desc.buffer).data with ⟨e | ⟨⟩, data⟩
    · rfl
    · simp only [modifyBuffer_exchange, emit_exchange, submit_exchange hφ]
      rfl

theorem closeCurrent_exchange (hφ : LogService.Alike φ) (d : Draft σ) :
    (d.exchange φ).closeCurrent = d.closeCurrent.exchange φ := by
  have hcurrent : (d.exchange φ).current = d.current := rfl
  simp only [closeCurrent, hcurrent]
  cases d.current with
  | none => rfl
  | some desc => exact flush_exchange hφ { d with current := none } desc

theorem makeRoom_exchange (hφ : LogService.Alike φ) (d : Draft σ) :
    (d.exchange φ).makeRoom = d.makeRoom.exchange φ := by
  have hcurrent : (d.exchange φ).current = d.current := rfl
  simp only [makeRoom, hcurrent, closeCurrent_exchange hφ]
  cases d.current with
  | none => rfl
  | some desc =>
      simp only []
      split
      · rfl
      · rfl

theorem openNew_exchange (hφ : LogService.Alike φ) (d : Draft σ) (tid : Tid)
    (width : RecordWidth) : (d.exchange φ).openNew tid width = (d.openNew tid width).exchange φ := by
  have hmount : (d.exchange φ).mount = d.mount.exchange φ := rfl
  simp only [openNew, hmount, request_exchange hφ]
  rcases d.mount.request with ⟨_ | buffer, m⟩
  · rfl
  · have hstore : (m.exchange φ).store = m.store := rfl
    simp only [Prod.map, id, hstore]
    rcases openRevoke (m.store.get buffer).data tid with ⟨e | ⟨⟩, data⟩
    · rfl
    · simp only [modifyBuffer_exchange, file_exchange hφ]
      rfl

theorem ensureOpen_exchange (hφ : LogService.Alike φ) (d : Draft σ) (tid : Tid)
    (width : RecordWidth) :
    (d.exchange φ).ensureOpen tid width = (d.ensureOpen tid width).exchange φ := by
  have hcurrent : (d.exchange φ).current = d.current := rfl
  simp only [ensureOpen, hcurrent, openNew_exchange hφ]
  cases d.current with
  | none => rfl
  | some desc => rfl

omit [LogService σ] [LogService τ] in
theorem append_exchange (φ : σ → τ) (d : Draft σ) (desc : OpenDescriptor) (b : BlockNumber) :
    (d.exchange φ).append desc b = (d.append desc b).exchange φ := by
  unfold append
  cases desc.add b with
  | error e => rfl
  | ok desc => rfl

theorem put_exchange (hφ : LogService.Alike φ) (d : Draft σ) (tid : Tid) (width : RecordWidth)
    (r : Record) : (d.exchange φ).put tid width r = (d.put tid width r).exchange φ := by
  let opened := d.makeRoom.ensureOpen tid width
  have hopened : (d.exchange φ).makeRoom.ensureOpen tid width = opened.exchange φ := by
    rw [makeRoom_exchange hφ, ensureOpen_exchange hφ]
  have hcurrent : (opened.exchange φ).current = opened.current := rfl
  simp only [put, hopened, hcurrent]
  cases opened.current with
  | none => rfl
  | some desc => exact append_exchange φ opened desc r.block

theorem write_exchange (hφ : LogService.Alike φ) (tid : Tid) (width : RecordWidth) (d : Draft σ)
    (r : Record) : write tid width (d.exchange φ) r = (write tid width d r).exchange φ := by
  have hput : (d.exchange φ).count.put tid width r = (d.count.put tid width r).exchange φ :=
    put_exchange hφ d.count tid width r
  by_cases haborted : d.count.mount.journal.aborted = true
  · have haborted' : (d.exchange φ).count.mount.journal.aborted = true := haborted
    simp only [write, haborted, haborted', if_true]
    rfl
  · have haborted' : ¬ (d.exchange φ).count.mount.journal.aborted = true := haborted
    simp only [write, haborted, haborted', Bool.false_eq_true, if_false, hput]

theorem foldl_exchange (hφ : LogService.Alike φ) (tid : Tid) (width : RecordWidth)
    (rs : List Record) (d : Draft σ) :
    rs.foldl (write tid width) (d.exchange φ) = (rs.foldl (write tid width) d).exchange φ := by
  induction rs generalizing d with
  | nil => rfl
  | cons r rs ih => rw [List.foldl_cons, List.foldl_cons, write_exchange hφ, ih]

end Draft

namespace Mount

variable {φ : σ → τ} [LogService σ] [LogService τ]

theorem commit_exchange (hφ : LogService.Alike φ) (m : Mount σ) (tid : Tid) :
    (m.exchange φ).commit tid = (m.commit tid).map id (exchange φ) := by
  let d : Draft σ := ⟨m.drainTable.2, {}, none⟩
  have hbegin : (⟨(m.exchange φ).drainTable.2, {}, none⟩ : Draft τ) = d.exchange φ := rfl
  have hwidth : (m.exchange φ).drainTable.2.journal.config.recordWidth =
      m.drainTable.2.journal.config.recordWidth := rfl
  have hrecords : (m.exchange φ).drainTable.1 = m.drainTable.1 := rfl
  simp only [commit, hbegin, hwidth, hrecords, Draft.foldl_exchange hφ,
    Draft.closeCurrent_exchange hφ]
  rfl

/-- A call does the same to a mount over another log that answers alike. -/
theorem after_exchange (hφ : LogService.Alike φ) (m : Mount σ) (c : Call) :
    (m.exchange φ).after c = (m.after c).exchange φ := by
  cases c with
  | getOrCreate block => exact congrArg Prod.snd (getOrCreate_exchange φ m block)
  | read device block contended =>
      exact congrArg Prod.snd (readBuffer_exchange φ m device block contended)
  | evict block => exact congrArg Prod.snd (evict_exchange φ m block)
  | detach block size => rfl
  | revoke tid block given => exact congrArg Prod.snd (revoke_exchange hφ m tid block given)
  | cancel tid buffer => exact congrArg Prod.snd (cancel_exchange φ m tid buffer)
  | commit tid => exact congrArg Prod.snd (commit_exchange hφ m tid)

/-- So does a run. -/
theorem run_exchange (hφ : LogService.Alike φ) (m : Mount σ) (calls : List Call) :
    (m.exchange φ).run calls = (m.run calls).exchange φ := by
  induction calls generalizing m with
  | nil => rfl
  | cons c calls ih => rw [run_cons, run_cons, after_exchange hφ, ih]

end Mount

end BlockJournal
