import BlockJournal.Proofs.Mount.Core
import BlockJournal.Proofs.Store.Marks

/-!
# What Revokes and Cancels Come To

A revoke ends in one of three ways. It is refused, and nothing but the accounts
of the pool has changed. It is skipped, since the buffer is marked already and
the build goes on after a broken rule. Or it is recorded: the block has a record
and the buffer is marked. A cancel that finds its buffer known to be clean does
nothing else, and any other cancel leaves no record of the block.

`Mount.RevokeCase` and `Mount.CancelCase` say all of it as equations between
cores, and what follows about revokes and cancels is read off them.

## Main definitions

* `Counters.revoked`, `Counters.cancelled`: What revokes and cancels count.
* `Mount.Remarked`: A mount in which nothing but marks of buffers has changed.
* `Mount.prepare`: What a revoke does before the test for a second revoke.
* `Mount.SignalsTwice`: A revoke gets to the test and fails it.
* `Mount.RevokeCase`, `Mount.CancelCase`: The ways to end.

## Theorems

* `revoke_case`: Every revoke ends in one of its ways.
* `revoke_eq_revokedTwice`, `revoke_trace_of_signalsTwice`: How a build shows that
  the test failed.
* `store_cancel`: What a cancel does to the store.
* `cancel_of_clean`: What a cancel of a clean buffer answers.
* `cancel_case`: Every cancel ends in one of its ways.
-/

namespace BlockJournal

/-- The counters after a revoke that was recorded. -/
def Counters.revoked (c : Counters) (refreshed : Bool) : Counters :=
  if refreshed then { c with refreshed := c.refreshed + 1 }
  else { c with revokes := c.revokes + 1 }

/-- The counters after a cancel that searched the table. -/
def Counters.cancelled (c : Counters) (removed : Bool) : Counters :=
  if removed then { c with cancels := c.cancels + 1 } else c

namespace Mount

variable {σ : Type}

/-- A mount in which nothing has changed but the marks of buffers, by `f`. -/
structure Remarked (m : Mount σ) (f : BufferId → RevokeState → RevokeState) (m' : Mount σ) :
    Prop where
  -- Nothing but the store has changed.
  core_eq : m'.core = { m.core with store := m'.store }
  -- Nothing but marks has changed in the store.
  store : m.store.Remarked f m'.store

theorem Remarked.of_core {m m' : Mount σ} (h : m'.core = m.core) :
    m.Remarked (fun _ state => state) m' := by
  have hstore : m'.store = m.store := store_of_core h
  refine ⟨?_, ?_⟩
  · rw [h, hstore]
    rfl
  · rw [hstore]
    exact .refl _

theorem Remarked.trans {m m' m'' : Mount σ} {f g : BufferId → RevokeState → RevokeState}
    (hf : m.Remarked f m') (hg : m'.Remarked g m'') :
    m.Remarked (fun id state => g id (f id state)) m'' := by
  refine ⟨?_, hf.store.trans hg.store⟩
  rw [hg.core_eq, hf.core_eq]

theorem remarked_modifyBuffer {m : Mount σ} {id : BufferId} {f : Buffer → Buffer}
    {g : BufferId → RevokeState → RevokeState} (h : m.store.Remarked g (m.store.modify id f)) :
    m.Remarked g (m.modifyBuffer id f) :=
  ⟨rfl, h⟩

theorem remarked_markRevoked (m : Mount σ) (held : Held) :
    m.Remarked (fun id state => if held.buffer? = some id then .revoked else state)
      (m.markRevoked held) := by
  unfold markRevoked
  cases hbuffer : held.buffer? with
  | none =>
      simp only [reduceCtorEq, if_false]
      exact .of_core rfl
  | some id =>
      have h := m.store.remarked_setRevoke id (fun _ => .revoked)
      simp only [Option.some.injEq]
      exact remarked_modifyBuffer h

-- Handing a buffer back changes its dirty mark at most.
theorem remarked_letGo [LogService σ] (m : Mount σ) (tid : Tid) (held : Held) :
    m.Remarked (fun _ state => state) (m.letGo tid held) := by
  cases held with
  | given id =>
      simp only [letGo, forget]
      have habsorb : m.Remarked (fun _ state => state)
          (m.absorb (LogService.forget m.log tid (m.store.get id))) := .of_core (core_absorb m _)
      split
      · exact habsorb.trans (remarked_modifyBuffer (Store.remarked_setDirty _ id false))
      · exact habsorb
  | found id => exact .of_core rfl
  | nothing => exact .of_core rfl

/-- What a revoke does before the test for a second revoke. -/
def prepare (m : Mount σ) (block : BlockNumber) (given : Option BufferId) :
    Except Stop Unit × Mount σ :=
  match m.addFeatures m.journal.config.neededFeatures with
  | (.error e, m) => (.error (.failed e), m)
  | (.ok (), m) =>
      if m.journal.config.recordWidth.fits block then m.checkAlias block given
      else (.error (.failed (.recordTooNarrow block m.journal.config.recordWidth)), m)

/-- A revoke gets to the test for a second revoke, and fails it. -/
def SignalsTwice (m : Mount σ) (block : BlockNumber) (given : Option BufferId) : Prop :=
  (m.prepare block given).1 = .ok () ∧ m.isRevoked (m.hold block given) = true

theorem not_signalsTwice {m : Mount σ} {block : BlockNumber} {given : Option BufferId}
    (h : m.isRevoked (m.hold block given) = false) : ¬ m.SignalsTwice block given := by
  rintro ⟨_, hmarked⟩
  rw [h] at hmarked
  exact absurd hmarked (by simp only [Bool.false_eq_true, not_false_eq_true])

@[simp] theorem core_checkAlias (m : Mount σ) (block : BlockNumber) (given : Option BufferId) :
    (m.checkAlias block given).2.core = m.core := by
  have hcheck := core_check m .cleanAlias
  unfold checkAlias
  cases given with
  | none => rfl
  | some id =>
      by_cases he : m.journal.config.expensiveChecks = true
      · simp only [he, if_true]
        specialize hcheck (m.aliasAgrees block id)
        rcases hr : m.check .cleanAlias (m.aliasAgrees block id) with ⟨stop | holds, m'⟩
        · rw [hr] at hcheck; exact hcheck
        · rw [hr] at hcheck; exact hcheck
      · simp only [he]
        rfl

-- The check of buffers against each other breaks no rule but its own.
theorem checkAlias_ne_revokedTwice (m : Mount σ) (block : BlockNumber)
    (given : Option BufferId) :
    (m.checkAlias block given).1 ≠ .error (.violated .revokedTwice) := by
  unfold checkAlias
  cases given with
  | none => simp only [ne_eq, reduceCtorEq, not_false_eq_true]
  | some id =>
      by_cases he : m.journal.config.expensiveChecks = true
      · simp only [he, if_true]
        have hfst := check_fst m .cleanAlias (m.aliasAgrees block id)
        rcases hr : m.check .cleanAlias (m.aliasAgrees block id) with ⟨stop | holds, m'⟩
        · simp only [ne_eq, Except.error.injEq]
          rintro rfl
          rw [hr] at hfst
          split at hfst
          · exact absurd hfst (by simp only [reduceCtorEq, not_false_eq_true])
          · split at hfst
            · simp only [Except.error.injEq, Stop.violated.injEq, reduceCtorEq] at hfst
            · exact absurd hfst (by simp only [reduceCtorEq, not_false_eq_true])
        · simp only [ne_eq, reduceCtorEq, not_false_eq_true]
      · simp only [he]
        simp only [Bool.false_eq_true, if_false, ne_eq, reduceCtorEq, not_false_eq_true]

@[simp] theorem core_prepare (m : Mount σ) (block : BlockNumber) (given : Option BufferId) :
    (m.prepare block given).2.core = m.core := by
  have hfeatures := core_addFeatures m m.journal.config.neededFeatures
  unfold prepare
  rcases hr : m.addFeatures m.journal.config.neededFeatures with ⟨e | ⟨⟩, m'⟩
  · rw [hr] at hfeatures
    exact hfeatures
  · rw [hr] at hfeatures
    simp only []
    split
    · rw [core_checkAlias]
      exact hfeatures
    · exact hfeatures

theorem prepare_ne_revokedTwice (m : Mount σ) (block : BlockNumber) (given : Option BufferId) :
    (m.prepare block given).1 ≠ .error (.violated .revokedTwice) := by
  unfold prepare
  split
  · simp only [ne_eq, Except.error.injEq, reduceCtorEq, not_false_eq_true]
  · split
    · exact checkAlias_ne_revokedTwice _ block given
    · simp only [ne_eq, Except.error.injEq, reduceCtorEq, not_false_eq_true]

-- A block that a revoke gets ready for can be stored.
theorem fits_of_prepare {m : Mount σ} {block : BlockNumber} {given : Option BufferId}
    (h : (m.prepare block given).1 = .ok ()) : m.journal.config.recordWidth.fits block = true := by
  have hfeatures := core_addFeatures m m.journal.config.neededFeatures
  unfold prepare at h
  rcases hr : m.addFeatures m.journal.config.neededFeatures with ⟨e | ⟨⟩, m'⟩
  · simp only [hr, reduceCtorEq] at h
  · rw [hr] at hfeatures
    have hconfig : m'.journal.config = m.journal.config :=
      congrArg (fun m => m.journal.config) hfeatures
    by_cases hfits : m'.journal.config.recordWidth.fits block = true
    · rw [hconfig] at hfits
      exact hfits
    · simp only [hr, hfits, Bool.false_eq_true, if_false, reduceCtorEq] at h

-- The buffer of a revoke and its mark depend on the core alone.
theorem isRevoked_hold_of_core {m m' : Mount σ} (h : m'.core = m.core) (block : BlockNumber)
    (given : Option BufferId) :
    m'.hold block given = m.hold block given ∧
      ∀ held, m'.isRevoked held = m.isRevoked held := by
  have hstore : m'.store = m.store := store_of_core h
  have hsize : m'.journal.blockSize = m.journal.blockSize :=
    congrArg (fun m => m.journal.blockSize) h
  refine ⟨?_, fun held => ?_⟩
  · unfold hold
    rw [hstore, hsize]
  · unfold isRevoked
    rw [hstore]

/-- What a revoke does once it has passed the test. -/
def proceed [LogService σ] (m : Mount σ) (tid : Tid) (block : BlockNumber) (held : Held) :
    Except Stop Unit × Mount σ :=
  match m.record tid block with
  | (none, m) => (.error .stalled, m)
  | (some (.error e), m) => (.error (.failed e), m.emit (.revokeFailed block tid e))
  | (some (.ok refreshed), m) =>
      (.ok (), (((m.markRevoked held).letGo tid held).countRevoke refreshed).emit
        (.blockRevoked block tid refreshed))

-- A revoke gets ready, makes its test and then records the block.
theorem revoke_eq [LogService σ] (m : Mount σ) (tid : Tid) (block : BlockNumber)
    (given : Option BufferId) :
    m.revoke tid block given =
      match m.prepare block given with
      | (.error stop, m) => (.error stop, m)
      | (.ok (), m) =>
          let held := m.hold block given
          match m.check .revokedTwice (!m.isRevoked held) with
          | (.error stop, m) => (.error stop, m)
          | (.ok false, m) => (.ok (), m.letGo tid held)
          | (.ok true, m) => m.proceed tid block held := by
  unfold revoke prepare
  rcases m.addFeatures m.journal.config.neededFeatures with ⟨e | ⟨⟩, m'⟩
  · rfl
  · simp only []
    split
    · rfl
    · rfl

-- A revoke that does not get ready goes no further.
theorem revoke_of_prepare_error [LogService σ] {m : Mount σ} {block : BlockNumber} {given : Option BufferId}
    {stop : Stop} (h : (m.prepare block given).1 = .error stop) (tid : Tid) :
    m.revoke tid block given = (.error stop, (m.prepare block given).2) := by
  rw [revoke_eq]
  rcases hp : m.prepare block given with ⟨stop' | ⟨⟩, m₁⟩
  · rw [hp] at h
    rw [Except.error.inj h]
  · rw [hp] at h
    exact absurd h (by simp only [reduceCtorEq, not_false_eq_true])

theorem prepare_of_revoke [LogService σ] {m : Mount σ} {tid : Tid} {block : BlockNumber}
    {given : Option BufferId} (h : (m.revoke tid block given).1 = .ok ()) :
    (m.prepare block given).1 = .ok () := by
  cases hp : (m.prepare block given).1 with
  | ok => rfl
  | error stop =>
      rw [revoke_of_prepare_error hp] at h
      exact absurd h (by simp only [reduceCtorEq, not_false_eq_true])

/-- The ways for a revoke to end. -/
inductive RevokeCase (m : Mount σ) (tid : Tid) (block : BlockNumber) (given : Option BufferId) :
    Except Stop Unit → Mount σ → Prop
  -- It failed or was stopped.
  | refused (stop : Stop) (after : Mount σ) (pool : Pool)
      (htwice : stop = .violated .revokedTwice ↔ m.SignalsTwice block given)
      (hbuild : m.SignalsTwice block given → m.build = .debug)
      (huse : pool.inUse = m.pool.inUse) (hlimit : pool.limit = m.pool.limit)
      (hcore : after.core = { m.core with pool := pool }) :
      RevokeCase m tid block given (.error stop) after
  -- The buffer is marked already, and the build goes on.
  | skipped (after : Mount σ) (htwice : m.SignalsTwice block given) (hbuild : m.build = .release)
      (hmarks : m.Remarked (fun _ state => state) after) :
      RevokeCase m tid block given (.ok ()) after
  -- The block has a record now.
  | recorded (after : Mount σ) (table : Table) (pool : Pool) (counters : Counters)
      (hunmarked : m.isRevoked (m.hold block given) = false)
      (hfits : m.journal.config.recordWidth.fits block = true)
      (htable : m.journal.table.Recorded m.pool block tid table pool)
      (hmarks : m.store.Remarked (fun id state =>
        if (m.hold block given).buffer? = some id then .revoked else state) after.store)
      (hcore : after.core =
        { m.core with
          journal.table := table
          journal.counters := counters
          pool := pool
          store := after.store })
      (hcounters : counters =
        m.journal.counters.revoked (m.journal.table.lookup block).isSome) :
      RevokeCase m tid block given (.ok ()) after

theorem core_countRevoke (m : Mount σ) (refreshed : Bool) :
    (m.countRevoke refreshed).core =
      { m.core with journal.counters := m.journal.counters.revoked refreshed } := by
  cases refreshed with
  | true => rfl
  | false => rfl

@[simp] theorem store_countRevoke (m : Mount σ) (refreshed : Bool) :
    (m.countRevoke refreshed).store = m.store := by
  cases refreshed with
  | true => rfl
  | false => rfl

-- A revoke that has passed the test records its block or runs out of memory.
theorem proceed_cases [LogService σ] {m : Mount σ} (hm : m.journal.table.IsMap) (tid : Tid)
    (block : BlockNumber) (held : Held) :
    (∃ stop after pool, m.proceed tid block held = (.error stop, after) ∧
      stop ≠ .violated .revokedTwice ∧ pool.inUse = m.pool.inUse ∧ pool.limit = m.pool.limit ∧
      after.core = { m.core with pool := pool }) ∨
    (∃ after table pool, m.proceed tid block held = (.ok (), after) ∧
      m.journal.table.Recorded m.pool block tid table pool ∧
      m.store.Remarked (fun id state => if held.buffer? = some id then .revoked else state)
        after.store ∧
      after.core =
        { m.core with
          journal.table := table
          journal.counters := m.journal.counters.revoked (m.journal.table.lookup block).isSome
          pool := pool
          store := after.store }) := by
  unfold proceed
  rcases record_cases hm tid block with
    ⟨m', t', p', heq, hrec, hcore⟩ | ⟨result, m', p', heq, hresult, _, huse, hlimit, hcore⟩
  · -- The buffer is marked and handed back, which changes marks alone.
    right
    have hmarks := (remarked_markRevoked m' held).trans (remarked_letGo _ tid held)
    have hstore : m'.store = m.store := congrArg (fun m => m.store) hcore
    have hcounters : ((m'.markRevoked held).letGo tid held).journal.counters =
        m.journal.counters :=
      (congrArg (fun m => m.journal.counters) hmarks.core_eq).trans
        (congrArg (fun m => m.journal.counters) hcore)
    simp only [heq]
    refine ⟨_, t', p', rfl, hrec, ?_, ?_⟩
    · rw [store_emit, store_countRevoke, ← hstore]
      exact hmarks.store
    · rw [store_emit, store_countRevoke, core_emit, core_countRevoke, hcounters, hmarks.core_eq,
        hcore]
  · left
    rw [heq]
    rcases result with _ | e | refreshed
    · exact ⟨_, m', p', rfl, by simp only [ne_eq, reduceCtorEq, not_false_eq_true], huse, hlimit,
        hcore⟩
    · exact ⟨_, _, p', rfl, by simp only [ne_eq, reduceCtorEq, not_false_eq_true], huse, hlimit,
        hcore⟩
    · exact absurd rfl (hresult refreshed)

/-- Every revoke ends in one of its ways. -/
theorem revoke_case [LogService σ] {m : Mount σ} (hm : m.journal.table.IsMap) (tid : Tid)
    (block : BlockNumber) (given : Option BufferId) :
    RevokeCase m tid block given (m.revoke tid block given).1 (m.revoke tid block given).2 := by
  have hready := core_prepare m block given
  have hother := prepare_ne_revokedTwice m block given
  have hfits := @fits_of_prepare _ m block given
  rw [revoke_eq]
  rcases hp : m.prepare block given with ⟨stop | ⟨⟩, m₁⟩
  · -- It did not get to the test.
    rw [hp] at hready hother
    have hnot : ¬ m.SignalsTwice block given := by
      rw [SignalsTwice, hp]
      exact fun h => absurd h.1 (by simp only [reduceCtorEq, not_false_eq_true])
    refine .refused stop m₁ m.pool ⟨fun h => ?_, fun h => absurd h hnot⟩
      (fun h => absurd h hnot) rfl rfl hready
    exact absurd (by rw [h]) hother
  · rw [hp] at hready hfits
    rcases isRevoked_hold_of_core hready block given with ⟨hhold, hmarked⟩
    have hfst := check_fst m₁ .revokedTwice (!m₁.isRevoked (m₁.hold block given))
    have hcheck := core_check m₁ .revokedTwice (!m₁.isRevoked (m₁.hold block given))
    simp only [] at hhold hmarked ⊢
    rw [hhold, hmarked] at hfst hcheck ⊢
    rcases hc : m₁.check .revokedTwice (!m.isRevoked (m.hold block given)) with ⟨answer, m₂⟩
    rw [hc] at hfst hcheck
    have hcore : m₂.core = m.core := hcheck.trans hready
    have hbuild : m₁.build = m.build := congrArg (fun m => m.build) hready
    cases hmark : m.isRevoked (m.hold block given) with
    | true =>
        have htwice : m.SignalsTwice block given := ⟨by rw [hp], hmark⟩
        simp only [hmark, Bool.not_true, Bool.false_eq_true, if_false] at hfst
        cases hb : m₁.build with
        | debug =>
            simp only [hb] at hfst
            subst hfst
            exact .refused _ m₂ m.pool ⟨fun _ => htwice, fun _ => rfl⟩ (fun _ => hbuild ▸ hb) rfl rfl
              hcore
        | release =>
            simp only [hb] at hfst
            subst hfst
            exact .skipped _ htwice (hbuild ▸ hb)
              ((Remarked.of_core hcore).trans (remarked_letGo m₂ tid _))
    | false =>
        have hnot : ¬ m.SignalsTwice block given := not_signalsTwice hmark
        have htable : m₂.journal.table = m.journal.table :=
          congrArg (fun m => m.journal.table) hcore
        have hpool : m₂.pool = m.pool := congrArg (fun m => m.pool) hcore
        simp only [hmark, Bool.not_false, if_true] at hfst
        subst hfst
        rcases proceed_cases (htable ▸ hm) tid block (m.hold block given) with
          ⟨stop, after, pool, heq, hne, huse, hlimit, hafter⟩ |
          ⟨after, table, pool, heq, hrec, hmarks, hafter⟩
        · simp only [heq]
          rw [hpool] at huse hlimit
          exact .refused stop after pool ⟨fun h => absurd h hne, fun h => absurd h hnot⟩
            (fun h => absurd h hnot) huse hlimit (by rw [hafter, hcore])
        · simp only [heq]
          have hcounters : m₂.journal.counters = m.journal.counters :=
            congrArg (fun m => m.journal.counters) hcore
          rw [hcounters, htable] at hafter
          rw [htable, hpool] at hrec
          rw [store_of_core hcore] at hmarks
          exact .recorded after table pool _ hmark (hfits rfl) hrec hmarks
            (by rw [hafter, hcore]) rfl

-- Taking a block back leaves no record of it, and says whether there was one.
theorem takeBack_core {m : Mount σ} (hm : m.journal.table.IsMap) (tid : Tid)
    (block : BlockNumber) :
    ∃ table pool counters, (m.takeBack tid block).1 = decide (m.journal.table.Holds block) ∧
      m.journal.table.Erased m.pool block table pool ∧
      (m.takeBack tid block).2.core =
        { m.core with journal.table := table, journal.counters := counters, pool := pool } := by
  unfold takeBack
  by_cases hb : m.journal.table.Holds block
  · rcases Table.remove_of_holds hm m.pool hb with ⟨h, r, table, pool, hfind, hremove, herased⟩
    simp only [hfind, hremove]
    exact ⟨table, pool, _, (decide_eq_true hb).symm, herased, rfl⟩
  · have hfind := (Table.find_eq_none_iff_not_holds hm.toWellFormed).mpr hb
    simp only [hfind]
    exact ⟨m.journal.table, m.pool, m.journal.counters, (decide_eq_false hb).symm,
      .of_not_holds hm m.pool hb, rfl⟩

theorem counters_takeBack (m : Mount σ) (tid : Tid) (block : BlockNumber) :
    (m.takeBack tid block).2.journal.counters =
      m.journal.counters.cancelled (m.takeBack tid block).1 := by
  unfold takeBack
  cases m.journal.table.find block with
  | none => rfl
  | some h =>
      rcases hr : m.journal.table.remove m.pool h with ⟨_ | r, table, pool⟩
      · simp only [hr]
        rfl
      · simp only [hr]
        rfl

@[simp] theorem core_checkCancelled (m : Mount σ) (block : BlockNumber) :
    (m.checkCancelled block).2.core = m.core := by
  have hcheck := core_check m .survivedCancel (m.journal.table.find block).isNone
  unfold checkCancelled
  by_cases he : m.journal.config.expensiveChecks = true
  · simp only [he, if_true]
    rcases hr : m.check .survivedCancel (m.journal.table.find block).isNone with ⟨stop | holds, m'⟩
    · rw [hr] at hcheck; exact hcheck
    · rw [hr] at hcheck; exact hcheck
  · simp only [he]
    rfl

-- The check after a cancel stops a build that was told to stop, if it is asked for and
-- there is a record left.
theorem checkCancelled_eq {m : Mount σ} (hm : m.journal.table.IsMap) (block : BlockNumber) :
    (m.checkCancelled block).1 =
      if m.journal.config.expensiveChecks = true ∧ m.build = .debug ∧
          m.journal.table.Holds block then .error (.violated .survivedCancel)
      else .ok () := by
  have hfst := check_fst m .survivedCancel (m.journal.table.find block).isNone
  have hfind : (m.journal.table.find block).isNone = true ↔ ¬ m.journal.table.Holds block := by
    rw [Option.isNone_iff_eq_none, Table.find_eq_none_iff_not_holds hm.toWellFormed]
  unfold checkCancelled
  by_cases he : m.journal.config.expensiveChecks = true
  · simp only [he, if_true, true_and]
    rcases hr : m.check .survivedCancel (m.journal.table.find block).isNone with ⟨answer, m'⟩
    rw [hr] at hfst
    simp only [] at hfst
    subst hfst
    by_cases hb : m.journal.table.Holds block
    · rw [if_neg fun h => hfind.mp h hb]
      cases hbuild : m.build with
      | debug => simp only [hb, and_self, if_true]
      | release => simp only [reduceCtorEq, false_and, if_false]
    · rw [if_pos (hfind.mpr hb)]
      simp only [hb, and_false, if_false]
  · simp only [he]
    rfl

theorem checkCancelled_fst {m : Mount σ} (hm : m.journal.table.IsMap) (block : BlockNumber) :
    (m.checkCancelled block).1 = .ok () ∨
      ((m.checkCancelled block).1 = .error (.violated .survivedCancel) ∧
        m.journal.config.expensiveChecks = true ∧ m.journal.table.Holds block) := by
  rw [checkCancelled_eq hm]
  split
  · rename_i h
    exact Or.inr ⟨rfl, h.1, h.2.2⟩
  · exact Or.inl rfl

end Mount

/-- The buffer the cache has of the block of a buffer that is not in the cache. -/
def Store.cachedAlias (s : Store) (id : BufferId) : Option BufferId :=
  if (s.get id).flags.hashed then none
  else
    match s.lookup (s.get id).block (s.get id).size with
    | none => none
    | some other => if other = id then none else some other

theorem Store.Remarked.cachedAlias_eq {s s' : Store} {f : BufferId → RevokeState → RevokeState}
    (h : s.Remarked f s') (id : BufferId) : s'.cachedAlias id = s.cachedAlias id := by
  unfold Store.cachedAlias Store.lookup
  rw [h.block_eq, h.bytes_eq, h.hashed_eq, h.blockSize_eq, h.mapped?_eq]

-- A buffer of the cache has no other in the cache.
theorem Store.cachedAlias_of_mapped {s : Store} (hs : s.Coherent) {b : BlockNumber}
    {id : BufferId} (hb : s.mapped? b = some id) : s.cachedAlias id = none := by
  simp only [Store.cachedAlias, hs.hashed hb, if_true]

-- The other buffer in the cache is what a buffer that is not in the cache finds there.
theorem Store.cachedAlias_eq_some_iff {s : Store} {id other : BufferId} :
    s.cachedAlias id = some other ↔ (s.get id).flags.hashed = false ∧
      s.lookup (s.get id).block (s.get id).size = some other ∧ other ≠ id := by
  unfold Store.cachedAlias
  cases (s.get id).flags.hashed with
  | true => simp only [if_true, reduceCtorEq, Bool.true_eq_false, false_and]
  | false =>
      cases s.lookup (s.get id).block (s.get id).size with
      | none => simp only [Bool.false_eq_true, if_false, reduceCtorEq, false_and, and_false]
      | some found =>
          simp only [Bool.false_eq_true, if_false, Option.some.injEq, true_and]
          split
          · rename_i h
            simp only [reduceCtorEq, false_iff, not_and, not_not]
            exact fun ho => ho ▸ h
          · rename_i h
            simp only [Option.some.injEq, iff_self_and]
            exact fun ho => ho ▸ h

-- It is one of the same block.
theorem Store.mapped_of_cachedAlias {s : Store} {id other : BufferId}
    (h : s.cachedAlias id = some other) : s.mapped? (s.get id).block = some other :=
  mapped?_of_lookup (Store.cachedAlias_eq_some_iff.mp h).2.1

-- A buffer of the size of the cache that is not in the cache knows the one that is.
theorem Store.cachedAlias_of_ne {s : Store} (hs : s.Coherent) {id other : BufferId}
    (hbytes : (s.get id).size = s.blockSize.bytes)
    (hother : s.mapped? (s.get id).block = some other) (hne : other ≠ id) :
    s.cachedAlias id = some other := by
  have hunhashed : ¬ (s.get id).flags.hashed = true := by
    intro h
    rw [hs.mapped h] at hother
    exact hne (Option.some.inj hother).symm
  simp only [Store.cachedAlias, hunhashed, Store.lookup, hbytes, hother, hne, if_true,
    Bool.false_eq_true, if_false]

namespace Mount

variable {σ : Type}

-- What a cancel does to the store on its way.
theorem store_takeBack (m : Mount σ) (tid : Tid) (block : BlockNumber) :
    (m.takeBack tid block).2.store = m.store := by
  unfold takeBack
  split
  · rfl
  · split
    · rfl
    · rfl

theorem store_checkCancelled (m : Mount σ) (block : BlockNumber) :
    (m.checkCancelled block).2.store = m.store := store_of_core (core_checkCancelled m block)

theorem store_clearAlias (m : Mount σ) (id : BufferId) :
    (m.clearAlias id).store =
      match m.store.cachedAlias id with
      | none => m.store
      | some other => m.store.modify other Buffer.clearRevoked := by
  unfold clearAlias Store.cachedAlias
  by_cases hhashed : (m.store.get id).flags.hashed = true
  · simp only [hhashed, if_true]
  · simp only [hhashed, Bool.false_eq_true, if_false]
    cases m.store.lookup (m.store.get id).block (m.store.get id).size with
    | none => rfl
    | some other =>
        by_cases ho : other = id
        · simp only [ho, if_true]
        · simp only [ho, if_false]
          rfl

/-- A cancel changes the mark of its buffer, and that of the other one in the cache at most. -/
theorem store_cancel (m : Mount σ) (tid : Tid) (id : BufferId) :
    (m.cancel tid id).2.store = m.store.modify id Buffer.markClean ∨
      ∃ other, (m.cancel tid id).2.store =
        (m.store.modify id Buffer.markClean).modify other Buffer.clearRevoked := by
  by_cases hneeded : (m.store.get id).mayBeRevoked = true
  · simp only [cancel, hneeded, if_true]
    have htake := store_takeBack (m.modifyBuffer id Buffer.markClean) tid (m.store.get id).block
    rcases ht : (m.modifyBuffer id Buffer.markClean).takeBack tid (m.store.get id).block with
      ⟨removed, m₁⟩
    rw [ht] at htake
    have hcheck := store_checkCancelled m₁ (m.store.get id).block
    simp only []
    rcases hc : m₁.checkCancelled (m.store.get id).block with ⟨stop | ⟨⟩, m₂⟩
    · rw [hc] at hcheck
      exact Or.inl (hcheck.trans htake)
    · rw [hc] at hcheck
      simp only []
      rw [store_clearAlias, show m₂.store = m.store.modify id Buffer.markClean from
        hcheck.trans htake]
      cases (m.store.modify id Buffer.markClean).cachedAlias id with
      | none => exact Or.inl rfl
      | some other => exact Or.inr ⟨other, rfl⟩
  · let m₁ := (m.modifyBuffer id Buffer.markClean).countFastCancel
    have hcheck := store_checkCancelled m₁ (m.store.get id).block
    simp only [cancel, hneeded, Bool.false_eq_true, if_false]
    rcases hc : m₁.checkCancelled (m.store.get id).block with ⟨stop | ⟨⟩, m₂⟩
    · rw [hc] at hcheck
      exact Or.inl hcheck
    · rw [hc] at hcheck
      exact Or.inl hcheck

-- Taking back the mark of the buffer in the cache.
theorem remarked_clearAlias (m : Mount σ) (id : BufferId) :
    m.Remarked (fun other state =>
      if m.store.cachedAlias id = some other then state.withoutRevoke else state)
      (m.clearAlias id) := by
  refine ⟨?_, ?_⟩
  · simp only [clearAlias]
    split
    · rfl
    · split
      · rfl
      · split
        · rfl
        · rfl
  · rw [store_clearAlias]
    cases m.store.cachedAlias id with
    | none =>
        simp only [reduceCtorEq, if_false]
        exact .refl _
    | some other =>
        simp only [Option.some.injEq]
        exact Store.remarked_setRevoke _ other RevokeState.withoutRevoke

/-- The ways for a cancel to end. -/
inductive CancelCase (m : Mount σ) (id : BufferId) : Except Stop Bool → Mount σ → Prop
  -- The buffer is known to be clean. Nothing happens, unless a check stops it.
  | fast (result : Except Stop Bool) (after : Mount σ) (counters : Counters)
      (hclean : m.store.mark id = .clean)
      (hresult : result = .ok false ∨
        (result = .error (.violated .survivedCancel) ∧ m.journal.config.expensiveChecks = true ∧
          m.journal.table.Holds (m.store.get id).block))
      (hmarks : m.store.Remarked (fun _ state => state) after.store)
      (hcore : after.core =
        { m.core with journal.counters := counters, store := after.store })
      (hcounters : counters =
        { m.journal.counters with fastCancels := m.journal.counters.fastCancels + 1 }) :
      CancelCase m id result after
  -- The table is searched, and the block has no record now.
  | searched (after : Mount σ) (table : Table) (pool : Pool) (counters : Counters)
      (hneeded : m.store.mark id ≠ .clean)
      (htable : m.journal.table.Erased m.pool (m.store.get id).block table pool)
      (hmarks : m.store.Remarked (fun other state =>
        if id = other then .clean
        else if m.store.cachedAlias id = some other then state.withoutRevoke else state) after.store)
      (hcore : after.core =
        { m.core with
          journal.table := table
          journal.counters := counters
          pool := pool
          store := after.store })
      (hcounters : counters = m.journal.counters.cancelled
        (decide (m.journal.table.Holds (m.store.get id).block))) :
      CancelCase m id (.ok (decide (m.journal.table.Holds (m.store.get id).block))) after

-- A cancel of a buffer that is known to be clean does nothing but count it and make a check.
theorem cancel_eq_of_clean {m : Mount σ} (tid : Tid) {id : BufferId}
    (hclean : m.store.mark id = .clean) :
    m.cancel tid id =
      let checked := (m.modifyBuffer id Buffer.markClean).countFastCancel.checkCancelled
        (m.store.get id).block
      (checked.1.map fun _ => false, checked.2) := by
  have hneeded : (m.store.get id).mayBeRevoked = false := by
    change ((m.store.get id).flags.revoke != .clean) = false
    rw [show (m.store.get id).flags.revoke = .clean from hclean]
    rfl
  simp only [cancel, hneeded, Bool.false_eq_true, if_false]
  rcases (m.modifyBuffer id Buffer.markClean).countFastCancel.checkCancelled
    (m.store.get id).block with ⟨stop | ⟨⟩, after⟩
  · rfl
  · rfl

/-- It fails at most if the check finds that the block has a record all the same. -/
theorem cancel_of_clean {m : Mount σ} (hm : m.journal.table.IsMap) (tid : Tid) {id : BufferId}
    (hclean : m.store.mark id = .clean) :
    (m.cancel tid id).1 =
      if m.journal.config.expensiveChecks = true ∧ m.build = .debug ∧
          m.journal.table.Holds (m.store.get id).block then .error (.violated .survivedCancel)
      else .ok false := by
  let m₁ := (m.modifyBuffer id Buffer.markClean).countFastCancel
  have hcheck := checkCancelled_eq (m := m₁) hm (m.store.get id).block
  rw [cancel_eq_of_clean tid hclean]
  change (m₁.checkCancelled (m.store.get id).block).1.map _ = _
  rw [hcheck, apply_ite (Except.map _)]
  rfl

-- A cancel of a buffer that is known to be clean.
theorem cancel_case_of_clean {m : Mount σ} (hm : m.journal.table.IsMap) (tid : Tid)
    {id : BufferId} (hclean : m.store.mark id = .clean) :
    CancelCase m id (m.cancel tid id).1 (m.cancel tid id).2 := by
  -- The buffer is moved to the state that it is in.
  have hmarks : m.store.Remarked (fun _ state => state)
      (m.store.modify id Buffer.markClean) := by
    refine (m.store.remarked_setRevoke id (fun _ => .clean)).congr fun other => ?_
    by_cases ho : id = other
    · rw [if_pos ho, ← ho, hclean]
    · rw [if_neg ho]
  let m₁ := (m.modifyBuffer id Buffer.markClean).countFastCancel
  have hcheck := core_checkCancelled m₁ (m.store.get id).block
  have hstore : (m.cancel tid id).2.store = m.store.modify id Buffer.markClean := by
    rw [cancel_eq_of_clean tid hclean]
    exact congrArg (fun m => m.store) hcheck
  have hcore : (m.cancel tid id).2.core =
      { m.core with journal.counters := m₁.journal.counters, store := (m.cancel tid id).2.store } := by
    rw [hstore, cancel_eq_of_clean tid hclean]
    exact hcheck
  refine .fast _ _ m₁.journal.counters hclean ?_ (hstore ▸ hmarks) hcore rfl
  rw [cancel_of_clean hm tid hclean]
  split
  · rename_i hleft
    exact Or.inr ⟨rfl, hleft.1, hleft.2.2⟩
  · exact Or.inl rfl

-- A cancel of any other buffer.
theorem cancel_case_of_ne_clean {m : Mount σ} (hm : m.journal.table.IsMap) (tid : Tid)
    {id : BufferId} (hmark : m.store.mark id ≠ .clean) :
    CancelCase m id (m.cancel tid id).1 (m.cancel tid id).2 := by
  have hneeded : (m.store.get id).mayBeRevoked = true := bne_iff_ne.mpr hmark
  have hmarked : m.store.Remarked (fun other state => if id = other then .clean else state)
      (m.store.modify id Buffer.markClean) := m.store.remarked_setRevoke id (fun _ => .clean)
  let m₁ := m.modifyBuffer id Buffer.markClean
  rcases takeBack_core (m := m₁) hm tid (m.store.get id).block with
    ⟨table, pool, counters, hremoved, herased, hcore₂⟩
  have hcounters := counters_takeBack m₁ tid (m.store.get id).block
  simp only [cancel, hneeded, if_true]
  rcases ht : m₁.takeBack tid (m.store.get id).block with ⟨removed, m₂⟩
  rw [ht] at hremoved hcore₂ hcounters
  simp only [] at hremoved hcore₂ hcounters ⊢
  have htable₂ : m₂.journal.table = table := congrArg (fun m => m.journal.table) hcore₂
  have hgone : ¬ m₂.journal.table.Holds (m.store.get id).block := by
    rw [htable₂, herased.holds_iff]
    exact fun h => h.1 rfl
  -- The check finds nothing, since there is nothing left.
  have hfst := checkCancelled_fst (htable₂ ▸ herased.isMap) (m.store.get id).block
  have hcheck := core_checkCancelled m₂ (m.store.get id).block
  rcases hr : m₂.checkCancelled (m.store.get id).block with ⟨answer, m₃⟩
  rw [hr] at hcheck hfst
  rcases hfst with hok | ⟨_, _, hheld⟩
  · simp only [] at hok hcheck
    subst hok
    simp only []
    rw [hremoved]
    have hcore₃ := hcheck.trans hcore₂
    have hstore₃ : m₃.store = m.store.modify id Buffer.markClean :=
      congrArg (fun m => m.store) hcore₃
    have halias := remarked_clearAlias m₃ id
    rw [hstore₃] at halias
    refine .searched _ table pool counters hmark herased ?_ ?_ ?_
    · refine (hmarked.trans (hstore₃ ▸ halias.store)).congr fun other => ?_
      rw [hmarked.cachedAlias_eq]
      by_cases ho : id = other
      · rw [if_pos ho, if_pos ho, show RevokeState.clean.withoutRevoke = .clean from rfl, ite_self]
      · rw [if_neg ho, if_neg ho]
    · rw [halias.core_eq, hcore₃]
      rfl
    · have hcounted : m₂.journal.counters = counters :=
        congrArg (fun m => m.journal.counters) hcore₂
      rw [hcounted, hremoved] at hcounters
      exact hcounters
  · exact absurd hheld hgone

/-- Every cancel ends in one of its ways. -/
theorem cancel_case {m : Mount σ} (hm : m.journal.table.IsMap) (tid : Tid) (id : BufferId) :
    CancelCase m id (m.cancel tid id).1 (m.cancel tid id).2 := by
  by_cases hmark : m.store.mark id = .clean
  · exact cancel_case_of_clean hm tid hmark
  · exact cancel_case_of_ne_clean hm tid hmark

-- A revoke without a buffer, or with the one in the cache, marks the one in the
-- cache.
theorem buffer?_hold {m : Mount σ} (hsize : m.store.blockSize = m.journal.blockSize)
    {block : BlockNumber} {given : Option BufferId}
    (hgiven : ∀ id, given = some id → m.store.mapped? block = some id) :
    (m.hold block given).buffer? = m.store.mapped? block := by
  cases given with
  | some id =>
      rw [hgiven id rfl]
      rfl
  | none =>
      simp only [hold, Store.lookup, hsize, if_true]
      cases m.store.mapped? block with
      | none => rfl
      | some id => rfl

-- A revoke without a buffer, or with the one in the cache, gets to the test and fails
-- it exactly if the buffer in the cache is marked.
theorem signalsTwice_iff {m : Mount σ} (hsize : m.store.blockSize = m.journal.blockSize)
    {block : BlockNumber} {given : Option BufferId}
    (hgiven : ∀ id, given = some id → m.store.mapped? block = some id) :
    m.SignalsTwice block given ↔ (m.prepare block given).1 = .ok () ∧
      ∃ id, m.store.mapped? block = some id ∧ m.store.mark id = .revoked := by
  rw [SignalsTwice, isRevoked, buffer?_hold hsize hgiven]
  cases hblock : m.store.mapped? block with
  | none => simp only [Bool.false_eq_true, reduceCtorEq, false_and, exists_false]
  | some id =>
      simp only [beq_iff_eq, Option.some.injEq, exists_eq_left']
      rfl

/-- A debug build shows that the test failed by stopping there. -/
theorem revoke_eq_revokedTwice [LogService σ] {m : Mount σ} (hm : m.journal.table.IsMap)
    (tid : Tid) (block : BlockNumber) (given : Option BufferId) :
    (m.revoke tid block given).1 = .error (.violated .revokedTwice) ↔
      m.build = .debug ∧ m.SignalsTwice block given := by
  have hcase := revoke_case hm tid block given
  generalize (m.revoke tid block given).1 = result at hcase ⊢
  generalize (m.revoke tid block given).2 = after at hcase
  cases hcase with
  | refused stop _ pool htwice hbuild huse hlimit hcore =>
      rw [Except.error.injEq, htwice]
      exact ⟨fun h => ⟨hbuild h, h⟩, fun h => h.2⟩
  | skipped _ htwice hbuild hmarks =>
      refine ⟨fun h => absurd h (by simp only [reduceCtorEq, not_false_eq_true]), fun h => ?_⟩
      rw [hbuild] at h
      exact absurd h.1 (by simp only [reduceCtorEq, not_false_eq_true])
  | recorded _ table pool counters hunmarked hfits htable hmarks hcore =>
      exact ⟨fun h => absurd h (by simp only [reduceCtorEq, not_false_eq_true]),
        fun h => absurd h.2 (not_signalsTwice hunmarked)⟩

-- Handing a buffer back adds reports and takes none away.
theorem mem_trace_letGo [LogService σ] {m : Mount σ} {e : Event} (he : e ∈ m.trace) (tid : Tid)
    (held : Held) : e ∈ (m.letGo tid held).trace := by
  cases held with
  | given id =>
      have hreply : ∀ reply : Reply σ Bool, e ∈ (m.absorb reply).trace := by
        intro reply
        simp only [absorb]
        split
        · unfold abort
          split
          · exact Array.mem_append_left _ he
          · exact Array.mem_push_of_mem _ (Array.mem_append_left _ he)
        · exact Array.mem_append_left _ he
      simp only [letGo, forget]
      split
      · exact hreply _
      · exact hreply _
  | found id => exact he
  | nothing => exact he

/-- A release build shows that the test failed by reporting it. -/
theorem revoke_trace_of_signalsTwice [LogService σ] {m : Mount σ} (hbuild : m.build = .release)
    {block : BlockNumber} {given : Option BufferId} (htwice : m.SignalsTwice block given)
    (tid : Tid) : Event.ruleBroken .revokedTwice ∈ (m.revoke tid block given).2.trace := by
  have hready := core_prepare m block given
  rcases htwice with ⟨hok, hmarked⟩
  rw [revoke_eq]
  rcases hp : m.prepare block given with ⟨answer, m₁⟩
  rw [hp] at hready hok
  simp only [] at hready hok
  subst hok
  have hbuild₁ : m₁.build = .release := (congrArg (fun m => m.build) hready).trans hbuild
  rcases isRevoked_hold_of_core hready block given with ⟨hhold, hsame⟩
  have hcheck : m₁.check .revokedTwice (!m₁.isRevoked (m₁.hold block given)) =
      (.ok false, m₁.emit (.ruleBroken .revokedTwice)) := by
    rw [hhold, hsame, hmarked, check, hbuild₁]
    rfl
  simp only [hcheck]
  exact mem_trace_letGo (Array.mem_push_self) tid _

end Mount

end BlockJournal
