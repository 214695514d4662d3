import BlockJournal.Proofs.CacheOps
import BlockJournal.Proofs.Commit.Packing

/-!
# Operations on Different Blocks

Threads that work on blocks of their own do not notice each other.

Revokes and cancels of different blocks meet in two places. Blocks share the buckets of the
table, so the chains end up in one order or another, and all records are paid for by one
pool. Neither shows. What an operation comes to depends on what is known of its block, so
an operation gets the answer that it gets when its own sequence runs alone. What is known of
the blocks in the end, the counters and the features do not depend on the order in which the
two sequences took turns, and a commit writes the same blocks, though not in the same order.

Nothing is assumed about a rule that is broken on the way. It is broken by the same operation
in every order.

## Main definitions

* `Mount.outcomes`, `Mount.performAll`: A sequence of operations on a mount.
* `Mount.Completed`: What comes of a sequence.
* `LogService.Obliging`: A log in good health that stays so when a buffer is taken off its
  lists.
* `Mount.Agrees`, `Mount.CommitsAlike`: What mounts and their commits have in common.

## Theorems

* `Regular.completed`: Every sequence of operations has its effects.
* `Regular.agrees`: Two interleavings leave the same behind.
* `commitsAlike`: Commits of tables with the same blocks.
* `interleavings_agree`: All of it, from any state of a journal.
-/

namespace BlockJournal

namespace CacheOp

/-- An operation with its answer, if this is known of its block. -/
def answered (build : Build) (config : Config) (x : CacheOp × Stance) :
    CacheOp × Except Stop (Option Bool) :=
  (x.1, (x.1.effect config x.2).answer build config)

/-- The counters after an operation, if this is known of its block. -/
def counted (config : Config) (c : Counters) (x : CacheOp × Stance) : Counters :=
  (x.1.effect config x.2).count c

/-- The features after an operation. The first format has none to add to. -/
def advertised (config : Config) (features : UInt32) (op : CacheOp) : UInt32 :=
  match config.format with
  | .v1 => features
  | .v2 => features ||| op.features config

-- The order of operations does not matter for the features.
theorem advertised_comm (config : Config) (features : UInt32) (op op' : CacheOp) :
    advertised config (advertised config features op) op' =
      advertised config (advertised config features op') op := by
  unfold advertised
  cases config.format with
  | v1 => rfl
  | v2 =>
      change features ||| op.features config ||| op'.features config =
        features ||| op'.features config ||| op.features config
      rw [UInt32.or_assoc, UInt32.or_comm (op.features config), ← UInt32.or_assoc]

end CacheOp

/-- A log in good health that stays so when a buffer is taken off its lists, and does not
    abort the journal over it. -/
structure LogService.Obliging (σ : Type) [LogService σ] (good : σ → Prop) (size : Nat) : Prop
    extends LogService.Healthy σ good size where
  forget : ∀ log tid b, good log → (LogService.forget log tid b).abort = false ∧
    good (LogService.forget log tid b).next

/-- A log that follows a script leaves the journal alone when a buffer is taken off its lists. -/
theorem ScriptedLog.obliging (size : Nat) :
    LogService.Obliging ScriptedLog (fun log => log.script = { size := size }) size where
  toHealthy := ScriptedLog.healthy size
  forget := fun _ _ _ hscript => ⟨rfl, hscript⟩

namespace Surroundings

variable {σ : Type} [LogService σ] {good : σ → Prop} {size : Nat}

-- Such a log stays as good as it was.
theorem Forgotten.keeps (h : LogService.Obliging σ good size) {s s' : Surroundings σ}
    (hs : s.Forgotten s') (hgood : good s.log) : good s'.log ∧ s'.aborted = s.aborted := by
  rcases hs with rfl | ⟨tid, b, rfl⟩
  · exact ⟨hgood, rfl⟩
  · rcases h.forget s.log tid b hgood with ⟨habort, hnext⟩
    refine ⟨hnext, ?_⟩
    rw [answered, habort, Bool.or_false]

end Surroundings

namespace Mount

variable {σ : Type} [LogService σ]

/-- The operations of a sequence, each with the answer it gets. -/
def outcomes (m : Mount σ) : List CacheOp → List (CacheOp × Except Stop (Option Bool))
  | [] => []
  | op :: rest => (op, (m.perform op).1) :: (m.perform op).2.outcomes rest

/-- A mount after a sequence of operations. -/
def performAll (m : Mount σ) (ops : List CacheOp) : Mount σ :=
  ops.foldl (fun m op => (m.perform op).2) m

/-- What comes of a sequence of operations. Each meets what the ones before it on its block
    have left. -/
structure Completed (m : Mount σ) (config : Config) (ops : List CacheOp) : Prop where
  outcomes_eq : m.outcomes ops =
    (met CacheOp.block (CacheOp.next config) m.stance ops).map (CacheOp.answered m.build config)
  stance_eq : (m.performAll ops).stance =
    settled CacheOp.block (CacheOp.next config) m.stance ops
  mapped?_eq : ∀ b, (m.performAll ops).store.mapped? b = m.store.mapped? b
  counters_eq : (m.performAll ops).journal.counters =
    (met CacheOp.block (CacheOp.next config) m.stance ops).foldl (CacheOp.counted config)
      m.journal.counters
  features_eq : (m.performAll ops).journal.features =
    ops.foldl (CacheOp.advertised config) m.journal.features

variable {m m' : Mount σ} {config : Config} {size : BlockSize} {ops xs ys zs zs' : List CacheOp}

/-- Every sequence of operations has its effects. -/
theorem Regular.completed (hm : m.Regular config size ops.length) :
    m.Completed config ops ∧ (m.performAll ops).Regular config size 0 := by
  induction ops generalizing m with
  | nil => exact ⟨⟨rfl, rfl, fun _ => rfl, rfl, rfl⟩, hm⟩
  | cons op rest ih =>
      have hop := hm.performed op
      rcases ih (hm.perform op) with ⟨hrest, hregular⟩
      have hstance : (m.perform op).2.stance =
          turned CacheOp.block (CacheOp.next config) m.stance op := hop.stance_eq
      have hfeatures : (m.perform op).2.journal.features =
          CacheOp.advertised config m.journal.features op := by
        have hconfig : m.surroundings.config = config := hm.config_eq
        rw [hop.features_eq, Surroundings.features_featured, hconfig]
        rfl
      refine ⟨⟨?_, ?_, fun b => ?_, ?_, ?_⟩, hregular⟩
      · rw [outcomes, hrest.outcomes_eq, hstance, hop.build_eq, hop.answer_eq]
        rfl
      · exact hrest.stance_eq.trans (congrArg (settled _ _ · rest) hstance)
      · exact (hrest.mapped?_eq b).trans (hop.mapped?_eq b)
      · refine hrest.counters_eq.trans ?_
        rw [hstance, hop.counters_eq]
        rfl
      · refine hrest.features_eq.trans ?_
        rw [hfeatures]
        rfl

/-- What two mounts have in common if nothing that is known of a block, no counter and no
    feature tells them apart. -/
structure Agrees (m m' : Mount σ) : Prop where
  -- The same blocks are revoked, each in the same transaction.
  revokedIn_eq : ∀ b, m.journal.revokedIn b = m'.journal.revokedIn b
  -- The same buffers are in the cache.
  mapped?_eq : ∀ b, m.store.mapped? b = m'.store.mapped? b
  -- Each of them has the same mark.
  mark_eq : ∀ b id, m.store.mapped? b = some id → m.store.mark id = m'.store.mark id
  -- The same has been counted.
  counters_eq : m.journal.counters = m'.journal.counters
  -- The same features are in use.
  features_eq : m.journal.features = m'.journal.features

/-- What the answers in an interleaving are. -/
theorem Regular.outcomes_interleave (hm : m.Regular config size (xs.length + ys.length))
    (hdisjoint : ∀ x ∈ xs, ∀ y ∈ ys, x.block ≠ y.block) (h : Interleaves xs ys zs) :
    Interleaves (m.outcomes xs) (m.outcomes ys) (m.outcomes zs) := by
  have hlength : zs.length = xs.length + ys.length := by
    rw [h.perm.length_eq, List.length_append]
  rw [(hm.mono (Nat.le_add_right _ _)).completed.1.outcomes_eq,
    (hm.mono (Nat.le_add_left _ _)).completed.1.outcomes_eq,
    (hm.mono (Nat.le_of_eq hlength)).completed.1.outcomes_eq]
  exact (h.meeting hdisjoint m.stance).map _

/-- Two interleavings of the same sequences leave the same behind. -/
theorem Regular.agrees (hm : m.Regular config size (xs.length + ys.length))
    (hdisjoint : ∀ x ∈ xs, ∀ y ∈ ys, x.block ≠ y.block) (h : Interleaves xs ys zs)
    (h' : Interleaves xs ys zs') : (m.performAll zs).Agrees (m.performAll zs') := by
  have hlength : ∀ {ws}, Interleaves xs ys ws → ws.length ≤ xs.length + ys.length := by
    intro ws hws
    rw [hws.perm.length_eq, List.length_append]
  have hdone := (hm.mono (hlength h)).completed.1
  have hdone' := (hm.mono (hlength h')).completed.1
  have hmapped : ∀ b, (m.performAll zs).store.mapped? b = (m.performAll zs').store.mapped? b :=
    fun b => (hdone.mapped?_eq b).trans (hdone'.mapped?_eq b).symm
  have hstance : (m.performAll zs).stance = (m.performAll zs').stance := by
    rw [hdone.stance_eq, hdone'.stance_eq, h.settled_eq hdisjoint, h'.settled_eq hdisjoint]
  refine ⟨fun b => congrArg Stance.record (congrFun hstance b), hmapped, fun b id hid => ?_, ?_, ?_⟩
  · have hmark := congrArg Stance.mark (congrFun hstance b)
    simp only [stance, ← hmapped b, hid, Option.map_some, Option.some.injEq] at hmark
    exact hmark
  · -- The same is met in both, in one order or another.
    have hmet : (met CacheOp.block (CacheOp.next config) m.stance zs).Perm
        (met CacheOp.block (CacheOp.next config) m.stance zs') :=
      (h.meeting hdisjoint m.stance).perm.trans (h'.meeting hdisjoint m.stance).perm.symm
    rw [hdone.counters_eq, hdone'.counters_eq]
    exact hmet.foldl_eq' (fun _ _ _ _ c => CacheEffect.count_comm c _ _) _
  · rw [hdone.features_eq, hdone'.features_eq]
    exact (h.perm.trans h'.perm.symm).foldl_eq'
      (fun op _ op' _ features => CacheOp.advertised_comm config features op op') _

variable {good : σ → Prop} {descriptor : Nat}

-- An operation leaves such a log as good as it was.
theorem perform_obliging (h : LogService.Obliging σ good descriptor) (hgood : good m.log)
    (op : CacheOp) :
    good (m.perform op).2.log ∧ (m.perform op).2.journal.aborted = m.journal.aborted := by
  cases op with
  | revoke tid block handed =>
      have hforgotten := (m.surroundings_revoke tid block
        (if handed then m.store.mapped? block else none)).1
      have hkept := hforgotten.keeps h
        (by rw [Surroundings.log_featured]; exact hgood)
      rw [Surroundings.aborted_featured] at hkept
      exact hkept
  | cancel tid block =>
      cases hmapped : m.store.mapped? block with
      | none =>
          simp only [perform, hmapped]
          exact ⟨hgood, trivial⟩
      | some id =>
          have hsame := m.surroundings_cancel tid id
          have hlog : (m.cancel tid id).2.log = m.log := congrArg Surroundings.log hsame
          simp only [perform, hmapped]
          rw [hlog]
          exact ⟨hgood, congrArg Surroundings.aborted hsame⟩

theorem performAll_obliging (h : LogService.Obliging σ good descriptor) (hgood : good m.log)
    (ops : List CacheOp) :
    good (m.performAll ops).log ∧ (m.performAll ops).journal.aborted = m.journal.aborted := by
  induction ops generalizing m with
  | nil => exact ⟨hgood, rfl⟩
  | cons op rest ih =>
      rcases perform_obliging h hgood op with ⟨hnext, habort⟩
      rcases ih hnext with ⟨hlast, hsame⟩
      exact ⟨hlast, hsame.trans habort⟩

/-- What the commits of two mounts have in common if they write the same blocks. -/
structure CommitsAlike (m m' : Mount σ) (tid : Tid) : Prop where
  -- The statistics are the same.
  stats_eq : (m.commit tid).1 = (m'.commit tid).1
  -- There are as many descriptors.
  length_eq : (m.commitBuffers tid).length = (m'.commitBuffers tid).length
  -- They list the same blocks, each as often.
  perm : (m.commitEntries tid).Perm (m'.commitEntries tid)

/-- Commits over logs in good health write the same if the tables have records of the same
    blocks. If the journal was aborted they write nothing. -/
theorem commitsAlike (h : LogService.Healthy σ good descriptor) (hm : m.Orderly config)
    (hm' : m'.Orderly config)
    (hsame : ∀ b, m'.journal.table.Holds b ↔ m.journal.table.Holds b) (hgood : good m.log)
    (hgood' : good m'.log) (haborted : m'.journal.aborted = m.journal.aborted)
    (hsize : revokeHeaderSize + config.recordWidth.bytes ≤ descriptor)
    (hword : descriptor < UInt32.size) (tid : Tid) : m.CommitsAlike m' tid := by
  have hlen := hm.isMap.len_congr hm'.isMap hsame
  cases hlive : m.journal.aborted with
  | true =>
      have haccount := account_of_isMap hm.isMap tid
      have haccount' := account_of_isMap hm'.isMap tid
      have hsent := haccount.silent hlive
      have hsent' := haccount'.silent (haborted.trans hlive)
      refine ⟨?_, ?_, ?_⟩
      · rw [haccount.stats_of_silent hsent, haccount'.stats_of_silent hsent', hlen]
      · rw [hsent, hsent']
      · rw [commitEntries, commitEntries, hsent, hsent', List.flatMap_nil, List.flatMap_nil]
  | false =>
      have hpacking := packing_of_isMap h hgood hm.isMap (hm.config_eq ▸ hm.fits) hlive
        (hm.config_eq ▸ hsize) hword tid
      have hpacking' := packing_of_isMap h hgood' hm'.isMap (hm'.config_eq ▸ hm'.fits)
        (haborted.trans hlive) (hm'.config_eq ▸ hsize) hword tid
      have hlength : (m.commitBuffers tid).length = (m'.commitBuffers tid).length := by
        rw [hpacking.length_eq, hpacking'.length_eq, hlen, hm.config_eq, hm'.config_eq]
      refine ⟨?_, hlength, ?_⟩
      · rw [hpacking.stats_eq, hpacking'.stats_eq, hlen, hlength]
      · refine (List.perm_ext_iff_of_nodup hpacking.nodup hpacking'.nodup).mpr fun b => ?_
        rw [hpacking.mem_iff, hpacking'.mem_iff, hsame]

-- A journal has room for some operations if its pool has, whatever happened before.
theorem regular_runActs {build : Build} {store : Store} {log : σ}
    (hstore : Store.create config.blockSize.toNat = .ok store)
    (hcreate : create build config store log = .ok m) {acts : List Act} {room : Nat}
    (hroom : (m.runActs acts).pool.inUse + room ≤ (m.runActs acts).pool.capacity) :
    (m.runActs acts).Regular config m.journal.blockSize room := by
  rcases orderly_create hcreate with ⟨horderly, _, hfeatures⟩
  rcases sound_create hstore hcreate with ⟨hsound, _, _, hbytes, _⟩
  have hhoused : m.Housed m.journal.blockSize m.journal.blockSize :=
    ⟨rfl, hsound.blockSize_eq hbytes, hsound.coherent⟩
  refine ⟨horderly.runActs acts, hhoused.runActs horderly acts, hroom, fun hformat => ?_⟩
  rw [horderly.features_runActs hformat, hfeatures]

/-- Two sequences of revokes and cancels that have no block in common can take turns in any
    order, whatever happened to the journal before. An operation has the answer that it has
    when its own sequence runs alone, the mounts agree in the end, and commits over a log in
    good health write the same blocks.

    The pool has to have room for a record for each operation. If it has no limit this means
    that a word can count them. -/
theorem interleavings_agree {build : Build} {store : Store} {log : σ}
    (hstore : Store.create config.blockSize.toNat = .ok store)
    (hcreate : create build config store log = .ok m) (acts : List Act)
    (hroom : (m.runActs acts).pool.inUse + (xs.length + ys.length) ≤
      (m.runActs acts).pool.capacity)
    (hdisjoint : ∀ x ∈ xs, ∀ y ∈ ys, x.block ≠ y.block) (h : Interleaves xs ys zs)
    (h' : Interleaves xs ys zs') :
    let j := m.runActs acts
    Interleaves (j.outcomes xs) (j.outcomes ys) (j.outcomes zs) ∧
    Interleaves (j.outcomes xs) (j.outcomes ys) (j.outcomes zs') ∧
    (j.performAll zs).Agrees (j.performAll zs') ∧
    ∀ {good : σ → Prop} {size : Nat}, LogService.Obliging σ good size → good j.log →
      revokeHeaderSize + config.recordWidth.bytes ≤ size → size < UInt32.size →
      ∀ tid, (j.performAll zs).CommitsAlike (j.performAll zs') tid := by
  intro j
  have hj : j.Regular config m.journal.blockSize (xs.length + ys.length) :=
    regular_runActs hstore hcreate hroom
  have hagrees := hj.agrees hdisjoint h h'
  refine ⟨hj.outcomes_interleave hdisjoint h, hj.outcomes_interleave hdisjoint h', hagrees, ?_⟩
  intro good size hobliging hgood hsize hword tid
  have hregular : ∀ {ws}, Interleaves xs ys ws → (j.performAll ws).Orderly config := by
    intro ws hws
    have hlength : ws.length = xs.length + ys.length := by
      rw [hws.perm.length_eq, List.length_append]
    exact (hj.mono (Nat.le_of_eq hlength)).completed.2.toOrderly
  have hsame : ∀ b, (j.performAll zs').journal.table.Holds b ↔
      (j.performAll zs).journal.table.Holds b := by
    intro b
    have hrecord := congrArg Option.isSome (hagrees.revokedIn_eq b)
    rw [isSome_revokedIn, isSome_revokedIn, decide_eq_decide] at hrecord
    exact hrecord.symm
  rcases performAll_obliging hobliging hgood zs with ⟨hlog, habort⟩
  rcases performAll_obliging hobliging hgood zs' with ⟨hlog', habort'⟩
  exact commitsAlike hobliging.toHealthy (hregular h) (hregular h') hsame hlog hlog'
    (habort'.trans habort.symm) hsize hword tid

end Mount

/-- The buffers of two blocks are in the cache. -/
def twoCached : List Act := [.call (.getOrCreate ⟨3⟩), .call (.getOrCreate ⟨9⟩)]

/-- What one of two threads does. It takes back one of its revokes. -/
def oneThread : List CacheOp :=
  [.revoke ⟨1⟩ ⟨3⟩ true, .revoke ⟨1⟩ ⟨8⟩ false, .cancel ⟨1⟩ ⟨3⟩]

/-- What the other one does. -/
def otherThread : List CacheOp := [.revoke ⟨1⟩ ⟨9⟩ true, .revoke ⟨1⟩ ⟨11⟩ false]

-- All these blocks share a bucket. Its chain shows who came first, and nothing else does.
theorem interleavings_agree_twoThreads :
    let j := (scriptedMount { size := 24 }).runActs twoCached
    let m := j.performAll (oneThread ++ otherThread)
    let m' := j.performAll (otherThread ++ oneThread)
    m.Agrees m' ∧ m.CommitsAlike m' ⟨1⟩ ∧ (m.commit ⟨1⟩).1 = ⟨3, 3, 0, 2⟩ ∧
      m.journal.table.records ≠ m'.journal.table.records := by
  intro j m m'
  have hstore : Store.create twoBuckets.blockSize.toNat = .ok smallStore := create_smallStore
  have hcreate := create_scriptedMount { size := 24 }
  have hroom : j.pool.inUse + (oneThread.length + otherThread.length) ≤ j.pool.capacity := by
    decide +kernel
  have hdisjoint : ∀ x ∈ oneThread, ∀ y ∈ otherThread, x.block ≠ y.block := by decide +kernel
  have hfirst : Interleaves oneThread otherThread (oneThread ++ otherThread) :=
    .left (.left (.left (.right (.right .nil))))
  have hlast : Interleaves oneThread otherThread (otherThread ++ oneThread) :=
    .right (.right (.left (.left (.left .nil))))
  rcases Mount.interleavings_agree hstore hcreate twoCached hroom hdisjoint hfirst hlast with
    ⟨_, _, hagrees, hcommits⟩
  have hgood : j.log.script = { size := 24 } := by decide +kernel
  have hcommit := hcommits (ScriptedLog.obliging 24) hgood (by decide) (by decide) ⟨1⟩
  refine ⟨hagrees, hcommit, ?_, ?_⟩
  · decide +kernel
  · decide +kernel

end BlockJournal
