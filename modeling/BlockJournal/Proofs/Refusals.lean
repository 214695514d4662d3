import BlockJournal.Proofs.Acts

/-!
# Refused Revokes

When a revoke fails, and what it leaves behind.

A revoke can fail at three places, and it passes them in a fixed order: the superblock
has no place for the features, the block does not fit the records, the pool admits no
record. `Mount.refusal` says which of them it is without running the revoke. The last one
is only met by a block that has no record, since a record that is there is brought up to
date for nothing, and it is met once for each attempt of the policy.

What is left of a refused revoke are the charges that the pool remembers having refused.
The table, the buffers and the counters are as they were, and nothing was asked of the
log.

## Main definitions

* `Mount.refusal`, `Mount.RefusalCase`: Why a revoke is refused, if it is.
* `Mount.Raises`: A revoke fails with an error of a class.

## Theorems

* `record_of_room`, `record_of_full`: Recording a block under a policy that gives up.
* `revoke_of_refusal`, `revoke_of_not_refusal`: A revoke ends as foretold.
* `refusal_class_iff`, `raises_iff`: The classes of errors that come of it.
* `revoke_refuses`: When revokes of a journal fail, and that they change nothing then.
-/

namespace BlockJournal

namespace Pool

theorem charge_of_lt {p : Pool} (h : p.inUse < p.capacity) : p.charge.1 = .ok () := by
  rw [charge, if_pos h]

theorem charge_of_le {p : Pool} (h : p.capacity ≤ p.inUse) :
    p.charge = (.error (.poolExhausted p.inUse), { p with failures := p.failures + 1 }) :=
  if_neg (Nat.not_lt_of_le h)

end Pool

namespace Mount

variable {σ : Type}

/-- Recording a block works at once if the block has a record or the pool admits one. -/
theorem record_of_room {m : Mount σ} (hm : m.journal.table.IsMap) (tid : Tid) {b : BlockNumber}
    (hroom : m.journal.table.Holds b ∨ m.pool.inUse < m.pool.capacity) :
    ∃ refreshed, (m.record tid b).1 = some (.ok refreshed) := by
  rcases Table.record_cases hm m.pool b tid with ⟨t', p', heq, _⟩ | ⟨e, p', heq, hb, hcharge⟩
  · refine ⟨(m.journal.table.lookup b).isSome, ?_⟩
    change (BlockJournal.retry _ _ _ _).result = _
    rw [retry_of_ok heq]
  · have hok := Pool.charge_of_lt (hroom.resolve_left hb)
    rw [hcharge] at hok
    exact absurd hok (by simp only [reduceCtorEq, not_false_eq_true])

/-- It fails if the block has no record and the pool admits none. The pool is asked once for
    each attempt, and nothing else comes of it. -/
theorem record_of_full {m : Mount σ} (hm : m.journal.table.IsMap)
    (hpolicy : ∀ delay, m.journal.config.retry ≠ .indefinite delay) (tid : Tid) {b : BlockNumber}
    (hb : ¬ m.journal.table.Holds b) (hfull : m.pool.capacity ≤ m.pool.inUse) :
    (m.record tid b).1 = some (.error (.poolExhausted m.pool.inUse)) ∧
      (m.record tid b).2.core =
        { m.core with
          pool.failures := m.pool.failures +
            UInt64.ofNat (m.journal.config.retry.retries Journal.patience + 1) } := by
  -- After some attempts the pool has refused as many charges.
  let Kept (n : Nat) (s : Table × Pool) : Prop :=
    s = (m.journal.table, { m.pool with failures := m.pool.failures + UInt64.ofNat n })
  have hfail : ∀ n s, Kept n s →
      (Table.record b tid s).1 = .error (.poolExhausted m.pool.inUse) ∧
        Kept (n + 1) (Table.record b tid s).2 := by
    rintro n s rfl
    have hfind := (Table.find_eq_none_iff_not_holds hm.toWellFormed).mpr hb
    let pool : Pool := { m.pool with failures := m.pool.failures + UInt64.ofNat n }
    have hcharge : pool.charge = _ := Pool.charge_of_le hfull
    have hrecord : Table.record b tid (m.journal.table, pool) =
        (.error (.poolExhausted m.pool.inUse), m.journal.table,
          { pool with failures := pool.failures + 1 }) := by
      simp only [Table.record, hfind, Table.insert, hcharge]
      rfl
    rw [hrecord]
    refine ⟨rfl, ?_⟩
    simp only [Kept, pool, UInt64.ofNat_add, UInt64.add_assoc]
    rfl
  have hstart : Kept 0 (m.journal.table, m.pool) := by
    simp only [Kept]
    rw [show UInt64.ofNat 0 = 0 from rfl, UInt64.add_zero]
  rcases retry_of_hopeless hpolicy Journal.patience rfl hfail hstart with ⟨hresult, hstate⟩
  refine ⟨hresult, ?_⟩
  have hcore : (m.record tid b).2.core =
      { m.core with
        journal.table := (BlockJournal.retry m.journal.config.retry Journal.patience
          (Table.record b tid) (m.journal.table, m.pool)).state.1
        pool := (BlockJournal.retry m.journal.config.retry Journal.patience
          (Table.record b tid) (m.journal.table, m.pool)).state.2 } := rfl
  rw [hcore, hstate]
  rfl

/-- Why a revoke is refused, if it is. A block that has a record is refused none, and
    neither is one whose buffer is marked already. -/
def refusal (m : Mount σ) (block : BlockNumber) (given : Option BufferId) : Option Error :=
  match m.journal.config.format with
  | .v1 => some (.noFeatureFields m.journal.config.neededFeatures)
  | .v2 =>
      if m.journal.config.recordWidth.fits block = false then
        some (.recordTooNarrow block m.journal.config.recordWidth)
      else if m.isRevoked (m.hold block given) = true ∨ m.journal.table.Holds block ∨
          m.pool.inUse < m.pool.capacity then none
      else some (.poolExhausted m.pool.inUse)

/-- The reasons, in the order in which they are met. -/
inductive RefusalCase (m : Mount σ) (block : BlockNumber) (given : Option BufferId) :
    Option Error → Prop
  -- The superblock has no place for the features.
  | unsupported (hformat : m.journal.config.format = .v1) :
      RefusalCase m block given (some (.noFeatureFields m.journal.config.neededFeatures))
  -- The block does not fit the records.
  | unfit (hformat : m.journal.config.format = .v2)
      (hfits : m.journal.config.recordWidth.fits block = false) :
      RefusalCase m block given (some (.recordTooNarrow block m.journal.config.recordWidth))
  -- The block needs a record, and the pool admits none.
  | full (hformat : m.journal.config.format = .v2)
      (hfits : m.journal.config.recordWidth.fits block = true)
      (hmark : m.isRevoked (m.hold block given) = false)
      (hb : ¬ m.journal.table.Holds block) (hfull : m.pool.capacity ≤ m.pool.inUse) :
      RefusalCase m block given (some (.poolExhausted m.pool.inUse))
  -- There is none.
  | granted (hformat : m.journal.config.format = .v2)
      (hfits : m.journal.config.recordWidth.fits block = true)
      (hroom : m.isRevoked (m.hold block given) = true ∨ m.journal.table.Holds block ∨
        m.pool.inUse < m.pool.capacity) :
      RefusalCase m block given none

theorem refusal_case (m : Mount σ) (block : BlockNumber) (given : Option BufferId) :
    RefusalCase m block given (m.refusal block given) := by
  unfold refusal
  cases hformat : m.journal.config.format with
  | v1 => exact .unsupported hformat
  | v2 =>
      cases hfits : m.journal.config.recordWidth.fits block with
      | false => exact .unfit hformat hfits
      | true =>
          simp only [Bool.true_eq_false, if_false]
          split
          · rename_i hroom
            exact .granted hformat hfits hroom
          · rename_i hroom
            rw [not_or, not_or, Nat.not_lt, Bool.not_eq_true] at hroom
            exact .full hformat hfits hroom.1 hroom.2.1 hroom.2.2

/-- The number of charges that the pool refuses a revoke that fails. -/
def refusedCharges (m : Mount σ) (e : Error) : Nat :=
  if e.category = .outOfMemory then m.journal.config.retry.retries Journal.patience + 1 else 0

-- On the first format a revoke has no way to announce itself.
theorem prepare_of_v1 {m : Mount σ} (hformat : m.journal.config.format = .v1)
    (hfeatures : m.journal.features = 0) (block : BlockNumber) (given : Option BufferId) :
    (m.prepare block given).1 =
      .error (.failed (.noFeatureFields m.journal.config.neededFeatures)) := by
  have hlacking : ¬ m.journal.features &&& m.journal.config.neededFeatures =
      m.journal.config.neededFeatures := by
    rw [hfeatures, UInt32.zero_and]
    exact fun h => m.journal.config.neededFeatures_ne_zero h.symm
  simp only [prepare, addFeatures, if_neg hlacking, hformat]

-- On the second the block decides, if the buffers agree or are not looked at.
theorem prepare_of_v2 {m : Mount σ} (hformat : m.journal.config.format = .v2)
    {block : BlockNumber} {given : Option BufferId}
    (hagree : ∀ id, given = some id → m.journal.config.expensiveChecks = true →
      m.aliasAgrees block id = true) :
    (m.prepare block given).1 =
      if m.journal.config.recordWidth.fits block = true then .ok ()
      else .error (.failed (.recordTooNarrow block m.journal.config.recordWidth)) := by
  have hadded : (m.addFeatures m.journal.config.neededFeatures).1 = .ok () := by
    unfold addFeatures
    split
    · rfl
    · simp only [hformat]
  have hcore := core_addFeatures m m.journal.config.neededFeatures
  unfold prepare
  rcases hr : m.addFeatures m.journal.config.neededFeatures with ⟨e | ⟨⟩, m'⟩
  · rw [hr] at hadded
    exact absurd hadded (by simp only [reduceCtorEq, not_false_eq_true])
  · rw [hr] at hcore
    have hconfig : m'.journal.config = m.journal.config :=
      congrArg (fun m => m.journal.config) hcore
    simp only [hconfig]
    split
    · cases given with
      | none => rfl
      | some id =>
          have hsame : m'.aliasAgrees block id = m.aliasAgrees block id := by
            have hsize : m'.journal.blockSize = m.journal.blockSize :=
              congrArg (fun m => m.journal.blockSize) hcore
            rw [aliasAgrees, aliasAgrees, store_of_core hcore, hsize]
          cases hchecks : m.journal.config.expensiveChecks with
          | false =>
              simp only [checkAlias, hconfig, hchecks]
              rfl
          | true =>
              simp only [checkAlias, hconfig, hchecks, hsame, hagree id rfl hchecks]
              rfl
    · rfl

variable [LogService σ]

-- A revoke that is ready makes its test in a state with the same core.
theorem revoke_of_prepared {m : Mount σ} {block : BlockNumber} {given : Option BufferId}
    (h : (m.prepare block given).1 = .ok ()) (tid : Tid) :
    ∃ m₁ : Mount σ, m₁.core = m.core ∧ m.revoke tid block given =
      match m₁.check .revokedTwice (!m.isRevoked (m.hold block given)) with
      | (.error stop, m) => (.error stop, m)
      | (.ok false, m₂) => (.ok (), m₂.letGo tid (m.hold block given))
      | (.ok true, m₂) => m₂.proceed tid block (m.hold block given) := by
  have hready := core_prepare m block given
  rw [revoke_eq]
  rcases hp : m.prepare block given with ⟨answer, m₁⟩
  rw [hp] at h hready
  simp only [] at h hready
  subst h
  rcases isRevoked_hold_of_core hready block given with ⟨hhold, hmarked⟩
  refine ⟨m₁, hready, ?_⟩
  rcases hc : m₁.check .revokedTwice (!m.isRevoked (m.hold block given)) with ⟨stop | holds, m₂⟩
  · simp only [hhold, hmarked, hc]
  · cases holds with
    | false => simp only [hhold, hmarked, hc]
    | true => simp only [hhold, hmarked, hc]

/-- A revoke whose buffer is marked already is skipped, or the build stops it there. -/
theorem revoke_of_marked {m : Mount σ} {block : BlockNumber} {given : Option BufferId}
    (h : (m.prepare block given).1 = .ok ()) (hmark : m.isRevoked (m.hold block given) = true)
    (tid : Tid) :
    (m.revoke tid block given).1 = .ok () ∨
      ((m.revoke tid block given).1 = .error (.violated .revokedTwice) ∧ m.build = .debug ∧
        (m.revoke tid block given).2.core = m.core) := by
  rcases revoke_of_prepared h tid with ⟨m₁, hready, heq⟩
  have hfst := check_fst m₁ .revokedTwice (!m.isRevoked (m.hold block given))
  have hcheck := core_check m₁ .revokedTwice (!m.isRevoked (m.hold block given))
  rw [heq]
  rcases hc : m₁.check .revokedTwice (!m.isRevoked (m.hold block given)) with ⟨answer, m₂⟩
  rw [hc, hmark] at hfst
  rw [hc] at hcheck
  simp only [Bool.not_true, Bool.false_eq_true, if_false] at hfst
  cases hbuild : m₁.build with
  | debug =>
      rw [hbuild] at hfst
      simp only [] at hfst
      rw [hfst]
      have hsame : m₁.build = m.build := congrArg (fun m => m.build) hready
      exact Or.inr ⟨rfl, hsame ▸ hbuild, hcheck.trans hready⟩
  | release =>
      rw [hbuild] at hfst
      simp only [] at hfst
      rw [hfst]
      exact Or.inl rfl

/-- A revoke whose buffer is not marked gets to the table. -/
theorem revoke_of_unmarked {m : Mount σ} {block : BlockNumber} {given : Option BufferId}
    (h : (m.prepare block given).1 = .ok ()) (hmark : m.isRevoked (m.hold block given) = false)
    (tid : Tid) :
    ∃ m₁ : Mount σ, m₁.core = m.core ∧
      m.revoke tid block given = m₁.proceed tid block (m.hold block given) := by
  rcases revoke_of_prepared h tid with ⟨m₁, hready, heq⟩
  refine ⟨m₁, hready, ?_⟩
  rw [heq, hmark]
  rfl

/-- A journal whose revokes do not look at other buffers, and wait for memory for a while at
    most. -/
structure Plain (m : Mount σ) : Prop where
  -- The table is a map.
  isMap : m.journal.table.IsMap
  -- The buffers are not looked at.
  unchecked : m.journal.config.expensiveChecks = false
  -- The policy gives up.
  patient : ∀ delay, m.journal.config.retry ≠ .indefinite delay
  -- The first format has no features.
  featureless : m.journal.config.format = .v1 → m.journal.features = 0

omit [LogService σ] in
-- Nobody looks whether the buffers agree.
theorem Plain.agree {m : Mount σ} (hm : m.Plain) (block : BlockNumber) (given : Option BufferId) :
    ∀ id, given = some id → m.journal.config.expensiveChecks = true →
      m.aliasAgrees block id = true := by
  intro id _ hchecks
  rw [hm.unchecked] at hchecks
  exact absurd hchecks Bool.false_ne_true

-- Without room in the pool a block without a record gets none.
theorem proceed_of_full {m m₁ : Mount σ} (hm : m.Plain) (hcore : m₁.core = m.core)
    {block : BlockNumber} (hb : ¬ m.journal.table.Holds block)
    (hfull : m.pool.capacity ≤ m.pool.inUse) (tid : Tid) (held : Held) :
    (m₁.proceed tid block held).1 = .error (.failed (.poolExhausted m.pool.inUse)) ∧
      (m₁.proceed tid block held).2.core =
        { m.core with
          pool.failures := m.pool.failures +
            UInt64.ofNat (m.journal.config.retry.retries Journal.patience + 1) } := by
  have htable : m₁.journal.table = m.journal.table := congrArg (fun m => m.journal.table) hcore
  have hpool : m₁.pool = m.pool := congrArg (fun m => m.pool) hcore
  have hconfig : m₁.journal.config = m.journal.config :=
    congrArg (fun m => m.journal.config) hcore
  rcases record_of_full (m := m₁) (htable ▸ hm.isMap) (hconfig ▸ hm.patient) tid (htable ▸ hb)
    (hpool ▸ hfull) with ⟨hresult, hafter⟩
  rw [hpool, hconfig, hcore] at hafter
  unfold proceed
  rcases hr : m₁.record tid block with ⟨result, m₂⟩
  rw [hr, hpool] at hresult
  rw [hr] at hafter
  simp only [] at hresult hafter
  subst hresult
  exact ⟨rfl, hafter⟩

-- With room, or with a record, it succeeds.
theorem proceed_of_room {m m₁ : Mount σ} (hm : m.journal.table.IsMap) (hcore : m₁.core = m.core)
    {block : BlockNumber}
    (hroom : m.journal.table.Holds block ∨ m.pool.inUse < m.pool.capacity) (tid : Tid)
    (held : Held) : (m₁.proceed tid block held).1 = .ok () := by
  have htable : m₁.journal.table = m.journal.table := congrArg (fun m => m.journal.table) hcore
  have hpool : m₁.pool = m.pool := congrArg (fun m => m.pool) hcore
  rcases record_of_room (m := m₁) (htable ▸ hm) tid (b := block)
    (by rw [htable, hpool]; exact hroom) with ⟨refreshed, hresult⟩
  unfold proceed
  rcases hr : m₁.record tid block with ⟨result, m₂⟩
  rw [hr] at hresult
  simp only [] at hresult
  subst hresult
  rfl

/-- A revoke that is refused fails as foretold, and nothing is left of it but the charges
    that the pool remembers. -/
theorem revoke_of_refusal {m : Mount σ} (hm : m.Plain) {block : BlockNumber}
    {given : Option BufferId} {e : Error} (hr : m.refusal block given = some e) (tid : Tid) :
    (m.revoke tid block given).1 = .error (.failed e) ∧
      (m.revoke tid block given).2.core =
        { m.core with
          pool.failures := m.pool.failures + UInt64.ofNat (m.refusedCharges e) } := by
  -- A revoke that does not get ready has asked the pool for nothing.
  have hearly : (m.prepare block given).1 = .error (.failed e) → e.category ≠ .outOfMemory →
      (m.revoke tid block given).1 = .error (.failed e) ∧
      (m.revoke tid block given).2.core =
        { m.core with
          pool.failures := m.pool.failures + UInt64.ofNat (m.refusedCharges e) } := by
    intro hprepare he
    rw [revoke_of_prepare_error hprepare, core_prepare, refusedCharges, if_neg he,
      show UInt64.ofNat 0 = 0 from rfl, UInt64.add_zero]
    exact ⟨rfl, rfl⟩
  have hcase := m.refusal_case block given
  rw [hr] at hcase
  cases hcase with
  | unsupported hformat =>
      refine hearly (prepare_of_v1 hformat (hm.featureless hformat) block given) ?_
      simp only [Error.category, ne_eq, reduceCtorEq, not_false_eq_true]
  | unfit hformat hfits =>
      have hprepare := prepare_of_v2 hformat (hm.agree block given)
      rw [if_neg (by rw [hfits]; exact Bool.false_ne_true)] at hprepare
      refine hearly hprepare ?_
      simp only [Error.category, ne_eq, reduceCtorEq, not_false_eq_true]
  | full hformat hfits hmark hb hfull =>
      have hprepare := prepare_of_v2 hformat (hm.agree block given)
      rw [if_pos hfits] at hprepare
      rcases revoke_of_unmarked hprepare hmark tid with ⟨m₁, hcore, heq⟩
      rw [heq]
      exact proceed_of_full hm hcore hb hfull tid _

/-- A revoke that is not refused succeeds, unless a build stops it at a buffer that is marked
    already. Nothing is left of it then. -/
theorem revoke_of_not_refusal {m : Mount σ} (hm : m.Plain) {block : BlockNumber}
    {given : Option BufferId} (hr : m.refusal block given = none) (tid : Tid) :
    (m.revoke tid block given).1 = .ok () ∨
      ((m.revoke tid block given).1 = .error (.violated .revokedTwice) ∧
        m.isRevoked (m.hold block given) = true ∧ m.build = .debug ∧
        (m.revoke tid block given).2.core = m.core) := by
  have hcase := m.refusal_case block given
  rw [hr] at hcase
  cases hcase with
  | granted hformat hfits hroom =>
      have hprepare := prepare_of_v2 hformat (hm.agree block given)
      rw [if_pos hfits] at hprepare
      cases hmark : m.isRevoked (m.hold block given) with
      | true =>
          rcases revoke_of_marked hprepare hmark tid with hok | ⟨hstop, hbuild, hcore⟩
          · exact Or.inl hok
          · exact Or.inr ⟨hstop, rfl, hbuild, hcore⟩
      | false =>
          rw [hmark] at hroom
          rcases revoke_of_unmarked hprepare hmark tid with ⟨m₁, hcore, heq⟩
          rw [heq]
          exact Or.inl (proceed_of_room hm.isMap hcore (hroom.resolve_left Bool.false_ne_true) tid _)

/-- A revoke fails with an error of a class. -/
def Raises (m : Mount σ) (tid : Tid) (block : BlockNumber) (given : Option BufferId)
    (c : ErrorClass) : Prop :=
  ∃ e, (m.revoke tid block given).1 = .error (.failed e) ∧ e.category = c

-- The classes of errors are those of the reasons there are.
theorem raises_iff {m : Mount σ} (hm : m.Plain) {tid : Tid} {block : BlockNumber}
    {given : Option BufferId} {c : ErrorClass} :
    m.Raises tid block given c ↔ ∃ e, m.refusal block given = some e ∧ e.category = c := by
  constructor
  · rintro ⟨e, hresult, hclass⟩
    cases hr : m.refusal block given with
    | none =>
        rcases revoke_of_not_refusal hm hr tid with hok | ⟨hstop, _⟩
        · rw [hok] at hresult
          exact absurd hresult (by simp only [reduceCtorEq, not_false_eq_true])
        · rw [hstop] at hresult
          exact absurd hresult (by
            simp only [Except.error.injEq, reduceCtorEq, not_false_eq_true])
    | some e' =>
        rw [(revoke_of_refusal hm hr tid).1, Except.error.injEq, Stop.failed.injEq] at hresult
        exact ⟨e', rfl, hresult ▸ hclass⟩
  · rintro ⟨e, hr, hclass⟩
    exact ⟨e, (revoke_of_refusal hm hr tid).1, hclass⟩

omit [LogService σ] in
/-- The classes of the reasons. -/
theorem refusal_class_iff (m : Mount σ) (block : BlockNumber) (given : Option BufferId) :
    ((∃ e, m.refusal block given = some e ∧ e.category = .unsupportedFeature) ↔
      m.journal.config.format = .v1) ∧
    ((∃ e, m.refusal block given = some e ∧ e.category = .format) ↔
      m.journal.config.format = .v2 ∧ m.journal.config.recordWidth.fits block = false) ∧
    ((∃ e, m.refusal block given = some e ∧ e.category = .outOfMemory) ↔
      m.journal.config.format = .v2 ∧ m.journal.config.recordWidth.fits block = true ∧
        m.isRevoked (m.hold block given) = false ∧ ¬ m.journal.table.Holds block ∧
        m.pool.capacity ≤ m.pool.inUse) := by
  have hcase := m.refusal_case block given
  generalize m.refusal block given = reason at hcase
  cases hcase with
  | unsupported hformat =>
      simp only [Option.some.injEq, exists_eq_left', Error.category, hformat, reduceCtorEq,
        false_and, and_self]
  | unfit hformat hfits =>
      simp only [Option.some.injEq, exists_eq_left', Error.category, hformat, hfits, reduceCtorEq,
        Bool.false_eq_true, false_and, and_false, and_self]
  | full hformat hfits hmark hb hfull =>
      simp only [Option.some.injEq, exists_eq_left', Error.category, hformat, hfits, hmark, hb,
        hfull, reduceCtorEq, Bool.true_eq_false, not_false_eq_true, and_false, and_self]
  | granted hformat hfits hroom =>
      have hnone : ¬ (m.isRevoked (m.hold block given) = false ∧ ¬ m.journal.table.Holds block ∧
          m.pool.capacity ≤ m.pool.inUse) := by
        rw [← Bool.not_eq_true, ← Nat.not_lt, ← not_or, ← not_or]
        exact not_not_intro hroom
      simp only [hformat, hfits, hnone, reduceCtorEq, Bool.true_eq_false, false_and, exists_false,
        and_false, and_self]

omit [LogService σ] in
-- There is no other class.
theorem category_of_refusal {m : Mount σ} {block : BlockNumber} {given : Option BufferId}
    {e : Error} (h : m.refusal block given = some e) :
    e.category = .unsupportedFeature ∨ e.category = .format ∨ e.category = .outOfMemory := by
  have hcase := m.refusal_case block given
  rw [h] at hcase
  cases hcase with
  | unsupported hformat => exact Or.inl rfl
  | unfit hformat hfits => exact Or.inr (Or.inl rfl)
  | full hformat hfits hmark hb hfull => exact Or.inr (Or.inr rfl)

variable {config : Config}

-- Whatever happened to a journal, its revokes are those of its settings.
theorem Orderly.plain {m : Mount σ} (hm : m.Orderly config) (hfeatures : m.journal.features = 0)
    (hchecks : config.expensiveChecks = false)
    (hpolicy : ∀ delay, config.retry ≠ .indefinite delay) (acts : List Act) :
    (m.runActs acts).Plain := by
  have horderly := hm.runActs acts
  refine ⟨horderly.isMap, ?_, ?_, fun hformat => ?_⟩
  · rw [horderly.config_eq]
    exact hchecks
  · rw [horderly.config_eq]
    exact hpolicy
  · rw [horderly.config_eq] at hformat
    rw [hm.features_runActs hformat, hfeatures]

/-- A revoke of a mounted journal, whatever happened before, fails if its format has no
    features, or else if the block does not fit the records, or else if the buffer is not
    marked, the block has no record and as many records are in use as the pool admits. It
    fails for nothing else. Of a revoke that fails or is stopped nothing is left but the
    charges the pool refused it, one for each attempt: the table, the buffers, the counters
    and what the pool has in use are the same, and the log has not been called. -/
theorem revoke_refuses {build : Build} {store : Store} {log : σ} {m : Mount σ}
    (hcreate : create build config store log = .ok m)
    (hchecks : config.expensiveChecks = false)
    (hpolicy : ∀ delay, config.retry ≠ .indefinite delay) (acts : List Act) (tid : Tid)
    (block : BlockNumber) (given : Option BufferId) :
    let j := m.runActs acts
    (j.Raises tid block given .unsupportedFeature ↔ config.format = .v1) ∧
    (j.Raises tid block given .format ↔
      config.format = .v2 ∧ config.recordWidth.fits block = false) ∧
    (j.Raises tid block given .outOfMemory ↔
      config.format = .v2 ∧ config.recordWidth.fits block = true ∧
        j.isRevoked (j.hold block given) = false ∧ ¬ j.journal.table.Holds block ∧
        (config.recordLimit.map UInt64.toNat).getD (UInt64.size - 1) ≤ j.pool.inUse) ∧
    (∀ stop, (j.revoke tid block given).1 = .error stop →
      (∃ e, stop = .failed e ∧ (e.category = .unsupportedFeature ∨ e.category = .format ∨
          e.category = .outOfMemory) ∧
        (j.revoke tid block given).2.core =
          { j.core with
            pool.failures := j.pool.failures + UInt64.ofNat
              (if e.category = .outOfMemory then config.retry.retries Journal.patience + 1
                else 0) }) ∨
      (stop = .violated .revokedTwice ∧ j.isRevoked (j.hold block given) = true ∧
        j.build = .debug ∧ (j.revoke tid block given).2.core = j.core)) ∧
    (∀ stop, (j.revoke tid block given).1 = .error stop →
      (j.revoke tid block given).2.log = j.log ∧
        (j.revoke tid block given).2.journal.aborted = j.journal.aborted) := by
  intro j
  rcases orderly_create hcreate with ⟨horderly, _, hfeatures⟩
  have hj : j.Orderly config := horderly.runActs acts
  have hplain : j.Plain := horderly.plain hfeatures hchecks hpolicy acts
  have hcapacity : j.pool.capacity =
      (config.recordLimit.map UInt64.toNat).getD (UInt64.size - 1) := by
    rw [Pool.capacity, hj.limit_eq]
  rcases j.refusal_class_iff block given with ⟨hunsupported, hunfit, hfull⟩
  refine ⟨?_, ?_, ?_, fun stop hstop => ?_, fun stop hstop => ?_⟩
  · rw [raises_iff hplain, hunsupported, hj.config_eq]
  · rw [raises_iff hplain, hunfit, hj.config_eq]
  · rw [raises_iff hplain, hfull, hj.config_eq, hcapacity]
  · cases hr : j.refusal block given with
    | none =>
        rcases revoke_of_not_refusal hplain hr tid with hok | ⟨hresult, hrest⟩
        · rw [hok] at hstop
          exact absurd hstop (by simp only [reduceCtorEq, not_false_eq_true])
        · rw [hresult] at hstop
          exact Or.inr ⟨(Except.error.inj hstop).symm, hrest⟩
    | some e =>
        rcases revoke_of_refusal hplain hr tid with ⟨hresult, hcore⟩
        rw [hresult] at hstop
        rw [refusedCharges, hj.config_eq] at hcore
        exact Or.inl ⟨e, (Except.error.inj hstop).symm, category_of_refusal hr, hcore⟩
  · have hsame := (j.surroundings_revoke tid block given).2 stop hstop
    refine ⟨(log_of_surroundings hsame).trans (j.surroundings.log_featured _), ?_⟩
    exact (congrArg Surroundings.aborted hsame).trans (j.surroundings.aborted_featured _)

end Mount

/-- The settings of a small journal that tries again twice. -/
def retryingConfig : Config := { smallConfig with retry := .bounded 2 50 100 }

/-- A small journal that tries again twice, just mounted. -/
def retryingMount : Mount RingLog :=
  { smallMount .release with journal.config := retryingConfig }

-- The one record there is room for is in use, and a revoke of another block makes three
-- attempts.
theorem revoke_refuses_retrying :
    Mount.create .release retryingConfig smallStore smallLog = .ok retryingMount ∧
    retryingConfig.expensiveChecks = false ∧
    (∀ delay, retryingConfig.retry ≠ .indefinite delay) ∧
    (retryingMount.runActs [.call (.revoke ⟨1⟩ ⟨5⟩ none)]).Raises ⟨1⟩ ⟨6⟩ none .outOfMemory ∧
    ¬ (retryingMount.runActs [.call (.revoke ⟨1⟩ ⟨5⟩ none)]).Raises ⟨1⟩ ⟨5⟩ none .outOfMemory := by
  have hcreate : Mount.create .release retryingConfig smallStore smallLog = .ok retryingMount := rfl
  have hpolicy : ∀ delay, retryingConfig.retry ≠ .indefinite delay := by
    intro delay
    simp only [retryingConfig, ne_eq, reduceCtorEq, not_false_eq_true]
  refine ⟨hcreate, rfl, hpolicy, ?_, ?_⟩
  · rw [(Mount.revoke_refuses hcreate rfl hpolicy _ ⟨1⟩ ⟨6⟩ none).2.2.1]
    decide +kernel
  · rw [(Mount.revoke_refuses hcreate rfl hpolicy _ ⟨1⟩ ⟨5⟩ none).2.2.1]
    decide +kernel

end BlockJournal
