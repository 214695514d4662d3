import BlockJournal.Proofs.Interleaving
import BlockJournal.Proofs.Refusals

/-!
# Operations on Blocks of the Cache

What a revoke or a cancel of a block comes to, as long as its buffer is the one in the
cache.

Most users of a journal know a block by its number. They revoke it with the buffer that the
cache has or with none, and take the revoke back through the buffer that the cache has. What
comes of such an operation depends on two things only: the record of the block, and the mark
of its buffer. `Stance` is the two of them, and `CacheOp.effect` says what the operation does
to them, what it answers and what it counts, without a table, a pool or a store. No other
block is concerned.

There has to be room in the pool. In a pool without a limit there is, until it has as many
records as a word can count.

## Main definitions

* `CacheOp`: A revoke or a cancel of a block.
* `Stance`, `Mount.stance`: What is known of a block.
* `CacheEffect`, `CacheOp.effect`: What comes of an operation.
* `Mount.perform`: An operation on a mount.
* `Mount.Regular`: A mount with room for some operations.
* `Mount.Performed`: A mount after an operation had an effect.

## Theorems

* `performed_revoke`, `performed_cancel`, `Regular.performed`: Every operation has its effect.
* `Regular.perform`: There is room for one operation less.
-/

namespace BlockJournal

/-- An operation on a block whose buffer, if there is one, is the one in the cache. -/
inductive CacheOp where
  -- The block is revoked. If the buffer is handed over it is the one that the cache has.
  | revoke (tid : Tid) (block : BlockNumber) (handed : Bool)
  -- The revoke is taken back through the buffer that the cache has.
  | cancel (tid : Tid) (block : BlockNumber)
  deriving DecidableEq, Repr

namespace CacheOp

/-- The block of an operation. -/
def block : CacheOp → BlockNumber
  | revoke _ block _ | cancel _ block => block

/-- The feature bits that an operation asks for. -/
def features (config : Config) : CacheOp → UInt32
  | revoke .. => config.neededFeatures
  | cancel .. => 0

end CacheOp

/-- What is known of a block. -/
structure Stance where
  -- The transaction that revoked it, if it has a record.
  record : Option Tid
  -- The mark of its buffer, if the cache has one.
  mark : Option RevokeState
  deriving DecidableEq, Repr

/-- What comes of an operation on a block. -/
inductive CacheEffect where
  -- The revoke is not possible.
  | refused (e : Error)
  -- The block is revoked already, as its buffer tells.
  | repeated
  -- The block has a record of the transaction, and had one before or not.
  | recorded (tid : Tid) (refreshed : Bool)
  -- There is no buffer to take the revoke back through.
  | unmapped
  -- The buffer is known to be clean, and there is a record or not.
  | known (left : Bool)
  -- There is no record, and one was removed or not.
  | searched (removed : Bool)
  deriving DecidableEq, Repr

namespace CacheEffect

/-- The answer to an operation. A revoke has nothing to say but that it was done. -/
def answer (build : Build) (config : Config) : CacheEffect → Except Stop (Option Bool)
  | refused e => .error (.failed e)
  | repeated =>
      match build with
      | .debug => .error (.violated .revokedTwice)
      | .release => .ok none
  | recorded .. | unmapped => .ok none
  | known left =>
      if config.expensiveChecks = true ∧ build = .debug ∧ left = true then
        .error (.violated .survivedCancel)
      else .ok (some false)
  | searched removed => .ok (some removed)

/-- What is known of the block afterwards. -/
def next : CacheEffect → Stance → Stance
  | recorded tid _, s => ⟨some tid, s.mark.map fun _ => .revoked⟩
  | searched _, _ => ⟨none, some .clean⟩
  | refused _, s | repeated, s | unmapped, s | known _, s => s

/-- The counters afterwards. -/
def count (c : Counters) : CacheEffect → Counters
  | recorded _ refreshed => c.revoked refreshed
  | known _ => { c with fastCancels := c.fastCancels + 1 }
  | searched removed => c.cancelled removed
  | refused _ | repeated | unmapped => c

-- It does not matter in which order things are counted.
theorem count_comm (c : Counters) (e e' : CacheEffect) :
    (e'.count (e.count c)) = e.count (e'.count c) := by
  cases e with
  | refused | repeated | unmapped => rfl
  | known => cases e' with
    | refused | repeated | unmapped | known => rfl
    | recorded _ refreshed => cases refreshed <;> rfl
    | searched removed => cases removed <;> rfl
  | recorded _ refreshed => cases e' with
    | refused | repeated | unmapped => rfl
    | known => cases refreshed <;> rfl
    | recorded _ refreshed' => cases refreshed <;> cases refreshed' <;> rfl
    | searched removed => cases refreshed <;> cases removed <;> rfl
  | searched removed => cases e' with
    | refused | repeated | unmapped => rfl
    | known => cases removed <;> rfl
    | recorded _ refreshed => cases removed <;> cases refreshed <;> rfl
    | searched removed' => cases removed <;> cases removed' <;> rfl

end CacheEffect

/-- What comes of an operation, by what is known of its block. -/
def CacheOp.effect (config : Config) : CacheOp → Stance → CacheEffect
  | .revoke tid block _, s =>
      match config.format with
      | .v1 => .refused (.noFeatureFields config.neededFeatures)
      | .v2 =>
          if config.recordWidth.fits block = true then
            if s.mark = some .revoked then .repeated
            else
              .recorded (match s.record with
                | some found => found.latest tid
                | none => tid) s.record.isSome
          else .refused (.recordTooNarrow block config.recordWidth)
  | .cancel _ _, s =>
      match s.mark with
      | none => .unmapped
      | some .clean => .known s.record.isSome
      | some .unknown | some .revoked => .searched s.record.isSome

/-- What is known of a block after an operation on it. -/
def CacheOp.next (config : Config) (op : CacheOp) (s : Stance) : Stance :=
  (op.effect config s).next s

namespace Mount

variable {σ : Type}

/-- What a mount knows of a block. -/
def stance (m : Mount σ) (b : BlockNumber) : Stance :=
  ⟨m.journal.revokedIn b, (m.store.mapped? b).map m.store.mark⟩

-- A block has a record exactly if it was revoked in some transaction.
theorem isSome_revokedIn (m : Mount σ) (b : BlockNumber) :
    (m.journal.revokedIn b).isSome = decide (m.journal.table.Holds b) := by
  rw [Journal.revokedIn, Option.isSome_map]
  exact Bool.decide_eq_true.symm

/-- What a mount knows after marks were changed. -/
theorem stance_of_remarked {m m' : Mount σ} {f : BufferId → RevokeState → RevokeState}
    (hs : m.store.Coherent) (hmarks : m.store.Remarked f m'.store) (b : BlockNumber) :
    m'.stance b = ⟨m'.journal.revokedIn b,
      (m.store.mapped? b).map fun id => f id (m.store.mark id)⟩ := by
  rw [stance, hmarks.mapped?_eq]
  refine congrArg _ ?_
  cases hb : m.store.mapped? b with
  | none => rfl
  | some id => rw [Option.map_some, Option.map_some, hmarks.mark_eq id (hs.lt_size hb)]

-- What a mount knows after something was learnt of one block.
theorem stance_update {m m' : Mount σ} {block : BlockNumber} {s : Stance}
    (h : m'.stance block = s) (hothers : ∀ b, b ≠ block → m'.stance b = m.stance b) :
    m'.stance = Function.update m.stance block s := by
  funext b
  by_cases hb : b = block
  · rw [hb, Function.update_self, h]
  · rw [Function.update_of_ne hb, hothers b hb]

-- A mount knows the same if no record and no mark has changed.
theorem stance_eq {m m' : Mount σ} (hs : m.store.Coherent)
    (htable : m'.journal.table = m.journal.table)
    (hmarks : m.store.Remarked (fun _ state => state) m'.store) : m'.stance = m.stance := by
  funext b
  rw [stance_of_remarked hs hmarks, Journal.revokedIn, htable]
  rfl

variable [LogService σ]

/-- An operation on a mount. -/
def perform (m : Mount σ) : CacheOp → Except Stop (Option Bool) × Mount σ
  | .revoke tid block handed =>
      let done := m.revoke tid block (if handed then m.store.mapped? block else none)
      (done.1.map fun _ => none, done.2)
  | .cancel tid block =>
      match m.store.mapped? block with
      | none => (.ok none, m)
      | some id =>
          let done := m.cancel tid id
          (done.1.map some, done.2)

/-- A mount, whose cache has blocks of the journal's size, with room for some operations. -/
structure Regular (m : Mount σ) (config : Config) (size : BlockSize) (room : Nat) : Prop
    extends Orderly m config, Housed m size size where
  -- The pool can pay for a record each.
  room_le : m.pool.inUse + room ≤ m.pool.capacity
  -- The first format has no features.
  featureless : config.format = .v1 → m.journal.features = 0

variable {m : Mount σ} {config : Config} {size : BlockSize} {room : Nat}

omit [LogService σ] in
-- With room for some operations there is room for less.
theorem Regular.mono {room' : Nat} (hm : m.Regular config size room) (h : room' ≤ room) :
    m.Regular config size room' :=
  ⟨hm.toOrderly, hm.toHoused, Nat.le_trans (Nat.add_le_add_left h _) hm.room_le, hm.featureless⟩

omit [LogService σ] in
theorem Regular.lt_capacity (hm : m.Regular config size (room + 1)) :
    m.pool.inUse < m.pool.capacity :=
  Nat.lt_of_lt_of_le (Nat.lt_add_of_pos_right (Nat.succ_pos room)) hm.room_le

/-- A mount after an operation on a block had an effect. -/
structure Performed (m : Mount σ) (config : Config) (op : CacheOp) (effect : CacheEffect)
    (outcome : Except Stop (Option Bool) × Mount σ) : Prop where
  answer_eq : outcome.1 = effect.answer m.build config
  -- Nothing else is known of the other blocks.
  stance_eq : outcome.2.stance = Function.update m.stance op.block (effect.next (m.stance op.block))
  mapped?_eq : ∀ b, outcome.2.store.mapped? b = m.store.mapped? b
  counters_eq : outcome.2.journal.counters = effect.count m.journal.counters
  features_eq : outcome.2.journal.features =
    (m.surroundings.featured (op.features config)).features
  build_eq : outcome.2.build = m.build
  -- It took one more record at most.
  inUse_le : outcome.2.pool.inUse ≤ m.pool.inUse + 1

omit [LogService σ] in
-- An operation that leaves everything about blocks as it was.
theorem Performed.of_quiet {op : CacheOp} {effect : CacheEffect}
    {answer : Except Stop (Option Bool)} {m' : Mount σ} (hs : m.store.Coherent)
    (hanswer : answer = effect.answer m.build config)
    (hnext : effect.next (m.stance op.block) = m.stance op.block)
    (hcount : effect.count m.journal.counters = m.journal.counters) {pool : Pool}
    (hcore : m'.core = { m.core with pool := pool, store := m'.store })
    (hmarks : m.store.Remarked (fun _ state => state) m'.store)
    (huse : pool.inUse ≤ m.pool.inUse)
    (hfeatures : m'.journal.features = (m.surroundings.featured (op.features config)).features) :
    m.Performed config op effect (answer, m') where
  answer_eq := hanswer
  stance_eq := by
    rw [hnext, Function.update_eq_self]
    exact Mount.stance_eq hs (congrArg (fun m => m.journal.table) hcore) hmarks
  mapped?_eq := hmarks.mapped?_eq
  counters_eq := (congrArg (fun m => m.journal.counters) hcore).trans hcount.symm
  features_eq := hfeatures
  build_eq := congrArg (fun m => m.build) hcore
  inUse_le := by
    have hpool : m'.pool = pool := congrArg (fun m => m.pool) hcore
    change m'.pool.inUse ≤ _
    rw [hpool]
    exact Nat.le_succ_of_le huse

-- A revoke asks for the features it needs.
theorem features_revoke (hm : m.Orderly config) (tid : Tid) (block : BlockNumber)
    (given : Option BufferId) :
    (m.revoke tid block given).2.journal.features =
      (m.surroundings.featured config.neededFeatures).features := by
  rw [← hm.config_eq]
  exact (m.surroundings_revoke tid block given).1.features_eq

-- A revoke that does not get ready has no other effect.
theorem performed_of_unprepared (hm : m.Regular config size room) {block : BlockNumber}
    {given : Option BufferId} {e : Error}
    (hprepare : (m.prepare block given).1 = .error (.failed e)) (tid : Tid) (handed : Bool) :
    m.Performed config (.revoke tid block handed) (.refused e)
      ((m.revoke tid block given).1.map fun _ => none, (m.revoke tid block given).2) := by
  have hsame := Remarked.of_core (core_prepare m block given)
  have hfeatures := features_revoke hm.toOrderly tid block given
  rw [revoke_of_prepare_error hprepare] at hfeatures ⊢
  exact .of_quiet hm.coherent rfl rfl rfl hsame.core_eq hsame.store (Nat.le_refl _) hfeatures

-- A revoke of a block whose buffer is marked goes no further.
theorem performed_of_marked (hm : m.Regular config size room) {block : BlockNumber}
    {given : Option BufferId} (htwice : m.SignalsTwice block given) (tid : Tid) (handed : Bool) :
    m.Performed config (.revoke tid block handed) .repeated
      ((m.revoke tid block given).1.map fun _ => none, (m.revoke tid block given).2) := by
  have hcase := revoke_case hm.isMap tid block given
  have hfeatures := features_revoke hm.toOrderly tid block given
  generalize (m.revoke tid block given).1 = result at hcase ⊢
  generalize (m.revoke tid block given).2 = after at hcase hfeatures ⊢
  cases hcase with
  | refused stop _ pool htwice' hbuild huse hlimit hcore =>
      have hstore : after.store = m.store := congrArg (fun m => m.store) hcore
      refine .of_quiet hm.coherent ?_ rfl rfl ?_ ?_ (Nat.le_of_eq huse) hfeatures
      · simp only [htwice'.mpr htwice, CacheEffect.answer, hbuild htwice]
        rfl
      · rw [hstore]
        exact hcore
      · rw [hstore]
        exact .refl _
  | skipped _ _ hbuild hmarks =>
      refine .of_quiet hm.coherent ?_ rfl rfl hmarks.core_eq hmarks.store (Nat.le_refl _) hfeatures
      simp only [CacheEffect.answer, hbuild]
      rfl
  | recorded _ table pool counters hunmarked =>
      exact absurd htwice (not_signalsTwice hunmarked)

-- A revoke of any other block records it.
theorem performed_of_unmarked (hm : m.Regular config size (room + 1)) {block : BlockNumber}
    {given : Option BufferId} (hbuffer : (m.hold block given).buffer? = m.store.mapped? block)
    (hprepare : (m.prepare block given).1 = .ok ())
    (hmark : m.isRevoked (m.hold block given) = false) (tid : Tid) (handed : Bool) :
    m.Performed config (.revoke tid block handed)
      (.recorded (m.journal.table.merged block tid) (m.stance block).record.isSome)
      ((m.revoke tid block given).1.map fun _ => none, (m.revoke tid block given).2) := by
  have hok : (m.revoke tid block given).1 = .ok () := by
    rcases revoke_of_unmarked hprepare hmark tid with ⟨m₁, hcore, heq⟩
    rw [heq]
    exact proceed_of_room hm.isMap hcore (Or.inr hm.lt_capacity) tid _
  have hcase := revoke_case hm.isMap tid block given
  have hfeatures := features_revoke hm.toOrderly tid block given
  rw [hok] at hcase ⊢
  generalize (m.revoke tid block given).2 = after at hcase hfeatures ⊢
  cases hcase with
  | skipped _ htwice => exact absurd htwice (not_signalsTwice hmark)
  | recorded _ table pool counters _ hfits htable hmarks hcore hcounters =>
      have htable' : after.journal.table = table := congrArg (fun m => m.journal.table) hcore
      have hpool : after.pool = pool := congrArg (fun m => m.pool) hcore
      have hcount : after.journal.counters = counters :=
        congrArg (fun m => m.journal.counters) hcore
      refine ⟨rfl, ?_, hmarks.mapped?_eq, ?_, hfeatures, congrArg (fun m => m.build) hcore, ?_⟩
      · refine stance_update ?_ fun b (hb : b ≠ block) => ?_
        · rw [stance_of_remarked hm.coherent hmarks, Journal.revokedIn, htable', htable.lookup_eq,
            hbuffer, CacheOp.block, if_pos rfl]
          refine congrArg _ ?_
          rw [stance]
          cases m.store.mapped? block with
          | none => rfl
          | some id => simp only [Option.map_some, if_true]
        · rw [stance_of_remarked hm.coherent hmarks, Journal.revokedIn, htable', htable.lookup_eq,
            hbuffer, if_neg hb]
          refine congrArg _ ?_
          -- The buffer that was marked belongs to one block only.
          cases hmapped : m.store.mapped? b with
          | none => rfl
          | some id =>
              have hne : m.store.mapped? block ≠ some id := fun h =>
                hb (hm.coherent.eq_of_mapped hmapped h)
              simp only [Option.map_some, if_neg hne]
      · rw [hcount, hcounters]
        simp only [CacheEffect.count, stance, Journal.revokedIn, Option.isSome_map]
      · have hpaid := htable.paid
        have hlen := htable.len_eq hm.isMap
        change after.pool.inUse ≤ _
        rw [hpool]
        split at hlen
        · omega
        · omega

omit [LogService σ] in
-- If the buffer of a revoke is the one in the cache then its mark is the one that is known.
theorem isRevoked_hold_iff {block : BlockNumber} {given : Option BufferId}
    (hbuffer : (m.hold block given).buffer? = m.store.mapped? block) :
    m.isRevoked (m.hold block given) = true ↔ (m.stance block).mark = some .revoked := by
  rw [isRevoked, hbuffer, stance]
  cases m.store.mapped? block with
  | none => simp only [Bool.false_eq_true, Option.map_none, reduceCtorEq]
  | some id =>
      simp only [beq_iff_eq, Option.map_some, Option.some.injEq]
      rfl

/-- A revoke has the effect that follows from what is known of its block. -/
theorem performed_revoke (hm : m.Regular config size (room + 1)) (tid : Tid)
    (block : BlockNumber) (handed : Bool) :
    m.Performed config (.revoke tid block handed)
      ((CacheOp.revoke tid block handed).effect config (m.stance block))
      (m.perform (.revoke tid block handed)) := by
  rw [perform]
  generalize hgiven : (if handed then m.store.mapped? block else none) = given
  have hmapped : ∀ id, given = some id → m.store.mapped? block = some id := by
    intro id hid
    rw [← hgiven] at hid
    split at hid
    · exact hid
    · exact absurd hid (by simp only [reduceCtorEq, not_false_eq_true])
  have hsize : m.store.blockSize = m.journal.blockSize := hm.cache_eq.trans hm.blockSize_eq.symm
  have hbuffer := buffer?_hold hsize hmapped
  have hagree : ∀ id, given = some id → m.journal.config.expensiveChecks = true →
      m.aliasAgrees block id = true := by
    intro id hid _
    simp only [aliasAgrees, Store.lookup, hsize, if_true, hmapped id hid, decide_true, Bool.true_or]
  cases hformat : config.format with
  | v1 =>
      have hprepare := prepare_of_v1 (hm.config_eq ▸ hformat) (hm.featureless hformat) block given
      rw [hm.config_eq] at hprepare
      simp only [CacheOp.effect, hformat]
      exact performed_of_unprepared hm hprepare tid handed
  | v2 =>
      have hprepare := prepare_of_v2 (hm.config_eq ▸ hformat) hagree
      rw [hm.config_eq] at hprepare
      by_cases hfits : config.recordWidth.fits block = true
      · rw [if_pos hfits] at hprepare
        simp only [CacheOp.effect, hformat, if_pos hfits]
        by_cases hmark : (m.stance block).mark = some .revoked
        · rw [if_pos hmark]
          exact performed_of_marked hm ⟨hprepare, (isRevoked_hold_iff hbuffer).mpr hmark⟩ tid handed
        · rw [if_neg hmark]
          have hmerged : (match (m.stance block).record with
              | some found => found.latest tid
              | none => tid) = m.journal.table.merged block tid := by
            simp only [stance, Journal.revokedIn, Table.merged]
            cases m.journal.table.lookup block with
            | none => rfl
            | some found => rfl
          rw [hmerged]
          exact performed_of_unmarked hm hbuffer hprepare
            (Bool.eq_false_iff.mpr fun h => hmark ((isRevoked_hold_iff hbuffer).mp h)) tid handed
      · rw [if_neg hfits] at hprepare
        simp only [CacheOp.effect, hformat, if_neg hfits]
        exact performed_of_unprepared hm hprepare tid handed

omit [LogService σ] in
-- A cancel asks for no features.
theorem features_cancel (tid : Tid) (id : BufferId) :
    (m.cancel tid id).2.journal.features = (m.surroundings.featured 0).features := by
  rw [Surroundings.features_featured_zero]
  exact congrArg Surroundings.features (m.surroundings_cancel tid id)

omit [LogService σ] in
-- A cancel through a buffer that is known to be clean only counts it.
theorem performed_of_clean (hm : m.Regular config size room) {block : BlockNumber}
    {id : BufferId} (hmapped : m.store.mapped? block = some id) (hclean : m.store.mark id = .clean)
    (tid : Tid) :
    m.Performed config (.cancel tid block) (.known (m.stance block).record.isSome)
      ((m.cancel tid id).1.map some, (m.cancel tid id).2) := by
  have hanswer := cancel_of_clean hm.isMap tid hclean
  have hcase := cancel_case_of_clean hm.isMap tid hclean
  have hfeatures := m.features_cancel tid id
  generalize (m.cancel tid id).1 = result at hcase hanswer ⊢
  generalize (m.cancel tid id).2 = after at hcase hfeatures ⊢
  cases hcase with
  | searched _ _ _ _ hneeded => exact absurd hclean hneeded
  | fast _ _ counters _ _ hmarks hcore hcounters =>
      have hcount : after.journal.counters = counters :=
        congrArg (fun m => m.journal.counters) hcore
      refine ⟨?_, ?_, hmarks.mapped?_eq, ?_, hfeatures, congrArg (fun m => m.build) hcore, ?_⟩
      · rw [hanswer, hm.coherent.block_eq hmapped, hm.config_eq]
        simp only [CacheEffect.answer, m.isSome_revokedIn, stance, decide_eq_true_eq]
        split
        · rfl
        · rfl
      · rw [CacheEffect.next, Function.update_eq_self]
        exact stance_eq hm.coherent (congrArg (fun m => m.journal.table) hcore) hmarks
      · rw [hcount, hcounters]
        rfl
      · have hpool : after.pool = m.pool := congrArg (fun m => m.pool) hcore
        change after.pool.inUse ≤ _
        rw [hpool]
        exact Nat.le_succ _

omit [LogService σ] in
-- A cancel through any other buffer leaves the block without a record.
theorem performed_of_ne_clean (hm : m.Regular config size room) {block : BlockNumber}
    {id : BufferId} (hmapped : m.store.mapped? block = some id) (hmark : m.store.mark id ≠ .clean)
    (tid : Tid) :
    m.Performed config (.cancel tid block) (.searched (m.stance block).record.isSome)
      ((m.cancel tid id).1.map some, (m.cancel tid id).2) := by
  have hblock : (m.store.get id).block = block := hm.coherent.block_eq hmapped
  have hrecord : (m.stance block).record.isSome = decide (m.journal.table.Holds block) :=
    m.isSome_revokedIn block
  have hcase := cancel_case_of_ne_clean hm.isMap tid hmark
  have hfeatures := m.features_cancel tid id
  generalize (m.cancel tid id).1 = result at hcase ⊢
  generalize (m.cancel tid id).2 = after at hcase hfeatures ⊢
  cases hcase with
  | fast _ _ _ hclean => exact absurd hclean hmark
  | searched _ table pool counters _ htable hmarks hcore hcounters =>
      have htable' : after.journal.table = table := congrArg (fun m => m.journal.table) hcore
      have hpool : after.pool = pool := congrArg (fun m => m.pool) hcore
      have hcount : after.journal.counters = counters :=
        congrArg (fun m => m.journal.counters) hcore
      refine ⟨?_, ?_, hmarks.mapped?_eq, ?_, hfeatures, congrArg (fun m => m.build) hcore, ?_⟩
      · rw [hblock, hrecord]
        rfl
      · refine stance_update ?_ fun b (hb : b ≠ block) => ?_
        · rw [stance_of_remarked hm.coherent hmarks, Journal.revokedIn, htable',
            htable.lookup_eq, hblock, CacheOp.block, if_pos rfl, hmapped]
          simp only [Option.map_none, Option.map_some, if_true, CacheEffect.next]
        · rw [stance_of_remarked hm.coherent hmarks, Journal.revokedIn, htable',
            htable.lookup_eq, hblock, if_neg hb]
          refine congrArg _ ?_
          -- Neither is the buffer that of another block, nor has it another in the cache.
          cases hother : m.store.mapped? b with
          | none => rfl
          | some other =>
              have hne : id ≠ other := fun h =>
                hb (hm.coherent.eq_of_mapped hother (h ▸ hmapped))
              simp only [Option.map_some, if_neg hne,
                Store.cachedAlias_of_mapped hm.coherent hmapped, reduceCtorEq, if_false]
      · rw [hcount, hcounters, hblock, hrecord]
        rfl
      · change after.pool.inUse ≤ _
        rw [hpool]
        exact Nat.le_succ_of_le htable.inUse_le

/-- A cancel has the effect that follows from what is known of its block. -/
theorem performed_cancel (hm : m.Regular config size room) (tid : Tid) (block : BlockNumber) :
    m.Performed config (.cancel tid block)
      ((CacheOp.cancel tid block).effect config (m.stance block))
      (m.perform (.cancel tid block)) := by
  cases hmapped : m.store.mapped? block with
  | none =>
      have hmark : (m.stance block).mark = none := by rw [stance, hmapped, Option.map_none]
      have hfeatures : m.journal.features = (m.surroundings.featured 0).features :=
        (Surroundings.features_featured_zero m.surroundings).symm
      simp only [CacheOp.effect, hmark, perform, hmapped]
      exact .of_quiet hm.coherent rfl rfl rfl rfl (.refl _) (Nat.le_refl _) hfeatures
  | some id =>
      have hmark : (m.stance block).mark = some (m.store.mark id) := by
        rw [stance, hmapped, Option.map_some]
      simp only [CacheOp.effect, hmark, perform, hmapped]
      cases hstate : m.store.mark id with
      | clean => exact performed_of_clean hm hmapped hstate tid
      | unknown | revoked =>
          exact performed_of_ne_clean hm hmapped
            (hstate ▸ by simp only [ne_eq, reduceCtorEq, not_false_eq_true]) tid

/-- Every operation has the effect that follows from what is known of its block. -/
theorem Regular.performed (hm : m.Regular config size (room + 1)) (op : CacheOp) :
    m.Performed config op (op.effect config (m.stance op.block)) (m.perform op) := by
  cases op with
  | revoke tid block handed => exact performed_revoke hm tid block handed
  | cancel tid block => exact performed_cancel hm tid block

/-- After an operation there is room for one less. -/
theorem Regular.perform (hm : m.Regular config size (room + 1)) (op : CacheOp) :
    (m.perform op).2.Regular config size room := by
  have hperformed := hm.performed op
  have hkept : (m.perform op).2.Orderly config ∧ (m.perform op).2.Housed size size := by
    cases op with
    | revoke tid block handed =>
        exact ⟨hm.toOrderly.after_revoke tid block _, hm.toHoused.after_revoke hm.isMap tid block _⟩
    | cancel tid block =>
        cases hmapped : m.store.mapped? block with
        | none =>
            simp only [Mount.perform, hmapped]
            exact ⟨hm.toOrderly, hm.toHoused⟩
        | some id =>
            simp only [Mount.perform, hmapped]
            exact ⟨hm.toOrderly.after_cancel tid id, hm.toHoused.after_cancel hm.isMap tid id⟩
  refine ⟨hkept.1, hkept.2, ?_, fun hformat => ?_⟩
  · have huse := hperformed.inUse_le
    have hroom := hm.room_le
    rw [Pool.capacity, hm.limit_eq, ← hkept.1.limit_eq, ← Pool.capacity] at hroom
    omega
  · have hsettings : m.surroundings.config.format = .v1 := by
      rw [← hformat, ← hm.config_eq]
      rfl
    rw [hperformed.features_eq, Surroundings.features_featured, hsettings]
    exact hm.featureless hformat

end Mount

end BlockJournal
