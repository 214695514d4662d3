import BlockJournal.Proofs.Table.Recording
import BlockJournal.Proofs.Retry

/-!
# The Core of a Mount

What reports, aborts and features have nothing to do with.

A mount does many small things on the way that say something about its work
without being part of it: it makes reports, adds feature bits, notes that it was
aborted. `Mount.core` leaves these out, and the log with them, and keeps what the
rest is about: the table, its pool, the counters and the buffers. Each small step
keeps the core or changes one part of it, so what a longer operation does is
an equation between cores.

## Main definitions

* `Mount.core`: A mount without its log, its reports, and its marks.

## Theorems

* `core_emit`, `core_check`, `core_addFeatures`, `core_absorb`: Small steps.
* `core_request_some`, `core_file`, `core_submit`: Calls to the log.
* `record_cases`: Recording a block under the policy for allocations.
-/

namespace BlockJournal

namespace Mount

variable {σ : Type}

/-- A mount without its log, its reports, its features and the mark of an abort. -/
def core (m : Mount σ) : Mount Unit :=
  { build := m.build
    journal := { m.journal with features := 0, aborted := false }
    pool := m.pool
    store := m.store
    log := ()
    trace := #[] }

theorem store_of_core {m m' : Mount σ} (h : m.core = m'.core) : m.store = m'.store := by
  have hstore := congrArg Mount.store h
  exact hstore

@[simp] theorem core_emit (m : Mount σ) (e : Event) : (m.emit e).core = m.core := rfl

@[simp] theorem store_emit (m : Mount σ) (e : Event) : (m.emit e).store = m.store := rfl

@[simp] theorem core_emitAll (m : Mount σ) (es : List Event) : (m.emitAll es).core = m.core := rfl

@[simp] theorem core_modifyBuffer (m : Mount σ) (id : BufferId) (f : Buffer → Buffer) :
    (m.modifyBuffer id f).core = { m.core with store := m.store.modify id f } := rfl

@[simp] theorem core_abort (m : Mount σ) : m.abort.core = m.core := by
  unfold abort
  split
  · rfl
  · rfl

@[simp] theorem core_absorb {α : Type} (m : Mount σ) (reply : Reply σ α) :
    (m.absorb reply).core = m.core := by
  simp only [absorb]
  split
  · rw [core_abort]; rfl
  · rfl

@[simp] theorem store_absorb {α : Type} (m : Mount σ) (reply : Reply σ α) :
    (m.absorb reply).store = m.store :=
  store_of_core (core_absorb m reply)

@[simp] theorem core_addFeatures (m : Mount σ) (bits : UInt32) :
    (m.addFeatures bits).2.core = m.core := by
  unfold addFeatures
  split
  · rfl
  · split
    · rfl
    · rfl

@[simp] theorem core_settle (m : Mount σ) (v : Violation) (verdict : Except Violation Bool) :
    (m.settle v verdict).2.core = m.core := by
  rcases verdict with _ | _ | _ <;> rfl

@[simp] theorem core_check (m : Mount σ) (v : Violation) (holds : Bool) :
    (m.check v holds).2.core = m.core :=
  core_settle m v _

-- What a test of a rule says: the rule held, or it did not and the build decides.
theorem check_fst (m : Mount σ) (v : Violation) (holds : Bool) :
    (m.check v holds).1 =
      if holds then .ok true
      else match m.build with
        | .debug => .error (.violated v)
        | .release => .ok false := by
  unfold check settle Build.check
  cases holds with
  | true => rfl
  | false => cases m.build <;> rfl

-- Asking for a descriptor in vain.
theorem core_request_none [LogService σ] {m m' : Mount σ} (h : m.request = (none, m')) :
    m'.core = m.core := by
  unfold request at h
  cases hvalue : (LogService.request m.log).value with
  | none =>
      simp only [hvalue, Prod.mk.injEq, true_and] at h
      rw [← h, core_absorb]
  | some entry =>
      simp only [hvalue, Prod.mk.injEq, reduceCtorEq, false_and] at h

/-- A descriptor is a new buffer at the end of the store. -/
theorem core_request_some [LogService σ] {m m' : Mount σ} {id : BufferId}
    (h : m.request = (some id, m')) :
    id = m.store.buffers.size ∧ ∃ block size,
      m'.core = { m.core with store := (m.store.detached block size).2 } := by
  unfold request at h
  cases hvalue : (LogService.request m.log).value with
  | none => simp only [hvalue, Prod.mk.injEq, reduceCtorEq, false_and] at h
  | some entry =>
      simp only [hvalue, store_absorb, Prod.mk.injEq, Option.some.injEq] at h
      rcases h with ⟨hid, hm'⟩
      refine ⟨hid.symm, entry.1, entry.2, ?_⟩
      rw [← hm', ← core_absorb m (LogService.request m.log)]
      rfl

/-- Filing a descriptor cuts its contents short at most. -/
theorem core_file [LogService σ] (m : Mount σ) (tid : Tid) (id : BufferId) :
    (m.file tid id).core = m.core ∨
      ∃ len, (m.file tid id).core = { m.core with store := m.store.modify id (·.truncate len) } := by
  simp only [file]
  split
  · exact Or.inl (core_absorb m _)
  · rename_i len _
    refine Or.inr ⟨len, ?_⟩
    rw [core_modifyBuffer, core_absorb, store_absorb]

@[simp] theorem core_submit [LogService σ] (m : Mount σ) (id : BufferId) :
    (m.submit id).core = m.core :=
  core_absorb m _

/-- Recording a block succeeds and says whether there was a record, or the block had
    none, the table stays as it was, and the pool has as much in use as before. -/
theorem record_cases {m : Mount σ} (hm : m.journal.table.IsMap) (tid : Tid) (b : BlockNumber) :
    (∃ m' t' p', m.record tid b = (some (.ok (m.journal.table.lookup b).isSome), m') ∧
      m.journal.table.Recorded m.pool b tid t' p' ∧
      m'.core = { m.core with journal.table := t', pool := p' }) ∨
    (∃ result m' p', m.record tid b = (result, m') ∧
      (∀ refreshed, result ≠ some (.ok refreshed)) ∧ ¬ m.journal.table.Holds b ∧
      p'.inUse = m.pool.inUse ∧ p'.limit = m.pool.limit ∧
      m'.core = { m.core with pool := p' }) := by
  -- A failed attempt leaves the table and what the pool has in use as they were.
  let Kept (s : Table × Pool) : Prop :=
    s.1 = m.journal.table ∧ s.2.inUse = m.pool.inUse ∧ s.2.limit = m.pool.limit
  have hkept : ∀ s e, Kept s → (Table.record b tid s).1 = .error e →
      Kept (Table.record b tid s).2 := by
    rintro ⟨t, p⟩ e ⟨rfl, huse, hlimit⟩ he
    rcases Table.record_cases hm p b tid with ⟨t', p', heq, _⟩ | ⟨e', p', heq, _, hc⟩
    · rw [heq] at he
      exact absurd he (by simp only [reduceCtorEq, not_false_eq_true])
    · rw [heq]
      rcases Pool.charge_error hc with ⟨huse', hlimit'⟩
      exact ⟨rfl, huse'.trans huse, hlimit'.trans hlimit⟩
  have hstart : Kept (m.journal.table, m.pool) := ⟨rfl, rfl, rfl⟩
  rcases @retry_last _ _ m.journal.config.retry _ _ Journal.patience hkept _ hstart with
    ⟨⟨t, p⟩, ⟨rfl, huse, hlimit⟩, hstate, hsome, hnone⟩
  have hcore : (m.record tid b).2.core =
      { m.core with
        journal.table := (Table.record b tid (m.journal.table, p)).2.1
        pool := (Table.record b tid (m.journal.table, p)).2.2 } := by
    rw [← hstate]
    rfl
  rcases Table.record_cases hm p b tid with ⟨t', p', heq, hrec⟩ | ⟨e, p', heq, hb, hc⟩
  · left
    have hresult : (m.record tid b).1 = some (.ok (m.journal.table.lookup b).isSome) := by
      change (BlockJournal.retry _ _ _ _).result = _
      cases hr : (BlockJournal.retry m.journal.config.retry Journal.patience (Table.record b tid)
        (m.journal.table, m.pool)).result with
      | none =>
          rcases hnone hr with ⟨e, he⟩
          rw [heq] at he
          exact absurd he (by simp only [reduceCtorEq, not_false_eq_true])
      | some r => rw [hsome r hr, heq]
    rw [heq] at hcore
    refine ⟨_, t', p', Prod.ext hresult rfl, ?_, hcore⟩
    have hpaid := hrec.paid
    change p.inUse = m.pool.inUse at huse
    exact ⟨hrec.isMap, hrec.lookup_eq, by omega, hrec.limit_eq.trans hlimit⟩
  · right
    rcases Pool.charge_error hc with ⟨huse', hlimit'⟩
    rw [heq] at hcore
    refine ⟨_, _, p', rfl, ?_, hb, huse'.trans huse, hlimit'.trans hlimit, hcore⟩
    intro refreshed hr
    have hfirst := hsome _ hr
    rw [heq] at hfirst
    exact absurd hfirst (by simp only [reduceCtorEq, not_false_eq_true])

end Mount

end BlockJournal
