import BlockJournal.Proofs.Acts

/-!
# What a Cancel Leaves Alone

A cancel of a revoke touches one block, whatever state the buffers of the block are in
and however its record lies in the table.

Taking a record out moves another one into its place, so the chains after a cancel are
not those before it without one record. The records are, in some order, and that is all
that the other blocks can tell. Of the buffers a cancel changes what they know of the
revoke and nothing else: its own comes out known to be clean, and the one in the cache
is no longer marked if the cancel was asked to search through a buffer that is not in
the cache. A cancel right after it has nothing left to do.

All of it rests on the table being a map, which is so in every state that a journal gets
into. `Mount.Reachable` are these states: those that acts lead to, with whatever those
who hold a buffer do to it in between and whatever becomes of the log.

## Main definitions

* `BufferEdit`: What the holder of a buffer can do to it.
* `Mount.Reachable`: The states that a journal gets into.
* `Store.AlikeButMarks`: Nothing but what buffers know of revokes has changed.
* `Mount.CancelEffect`: What a cancel does and what it leaves alone.

## Theorems

* `Reachable.orderly`: In every state the table is a map.
* `cancel_of_known_clean`: A cancel of a buffer known to be clean is counted, and that is all.
* `cancel_effect`: A cancel of any buffer.
* `cancel_is_local`: A cancel in any state, and another one right after it.
-/

namespace BlockJournal

/-- What the holder of a buffer can do to it. -/
inductive BufferEdit where
  | setDirty (dirty : Bool)
  | setLogWrite (logWrite : Bool)
  | setRevoke (state : RevokeState)
  | setData (data : Bytes)
  deriving DecidableEq, Repr

/-- A buffer after its holder did something to it. -/
def BufferEdit.apply : BufferEdit → Buffer → Buffer
  | setDirty dirty, b => b.setDirty dirty
  | setLogWrite logWrite, b => b.setLogWrite logWrite
  | setRevoke state, b => b.setRevoke state
  | setData data, b => b.setData data

-- A revoke that is taken back elsewhere is not known any more.
theorem RevokeState.withoutRevoke_ne_revoked (state : RevokeState) :
    state.withoutRevoke ≠ .revoked := by
  cases state with
  | unknown | clean | revoked => simp only [withoutRevoke, ne_eq, reduceCtorEq, not_false_eq_true]

namespace Store

/-- Nothing but what buffers know of revokes has changed. -/
def AlikeButMarks (s s' : Store) : Prop :=
  ∀ id, s'.get id = (s.get id).setRevoke (s'.mark id)

variable {s s' s'' : Store}

theorem AlikeButMarks.trans (h : s.AlikeButMarks s') (h' : s'.AlikeButMarks s'') :
    s.AlikeButMarks s'' := by
  intro id
  rw [h' id, h id]
  rfl

theorem alikeButMarks_modify (s : Store) (id : BufferId) (g : RevokeState → RevokeState) :
    s.AlikeButMarks (s.modify id fun b => b.setRevoke (g b.flags.revoke)) := by
  intro other
  rw [mark, get_modify]
  split
  · rfl
  · rfl

-- A mark that is left alone, also if no buffer has the id.
theorem Remarked.mark_eq_of_eq {f : BufferId → RevokeState → RevokeState} (h : s.Remarked f s')
    {id : BufferId} (hf : ∀ state, f id state = state) : s'.mark id = s.mark id := by
  by_cases hid : id < s.buffers.size
  · rw [h.mark_eq id hid, hf]
  · have hle := Nat.le_of_not_lt hid
    rw [(aside_of_size_le hle).2, (aside_of_size_le (h.size_eq ▸ hle)).2]

end Store

namespace Mount

variable {σ : Type}

/-- The states that a journal gets into. -/
inductive Reachable [LogService σ] (config : Config) : Mount σ → Prop
  -- The journal is mounted over a new cache.
  | mounted {build n store log m} (hstore : Store.create n = .ok store)
      (hcreate : create build config store log = .ok m) : Reachable config m
  -- Something happens to it.
  | act {m} (hm : Reachable config m) (a : Act) : Reachable config (m.act a)
  -- A buffer is changed by somebody who holds it.
  | edit {m} (hm : Reachable config m) (id : BufferId) (e : BufferEdit) :
      Reachable config (m.modifyBuffer id e.apply)
  -- Something becomes of the log.
  | log {m} (hm : Reachable config m) (log : σ) : Reachable config { m with log := log }

-- Runs lead to such states, too.
theorem Reachable.runActs [LogService σ] {config : Config} {m : Mount σ}
    (h : m.Reachable config) (acts : List Act) : (m.runActs acts).Reachable config := by
  induction acts generalizing m with
  | nil => exact h
  | cons a acts ih => exact ih (h.act a)

theorem Reachable.orderly [LogService σ] {config : Config} {m : Mount σ}
    (h : m.Reachable config) : m.Orderly config := by
  induction h with
  | mounted _ hcreate => exact (orderly_create hcreate).1
  | act _ a ih => exact ih.act a
  | edit _ id e ih => exact ⟨ih.config_eq, ih.isMap, ih.fits, ih.limit_eq⟩
  | log _ log ih => exact ⟨ih.config_eq, ih.isMap, ih.fits, ih.limit_eq⟩

/-- What a cancel of a buffer does and what it leaves alone. -/
structure CancelEffect (m : Mount σ) (id : BufferId) (result : Except Stop Bool)
    (m' : Mount σ) : Prop where
  -- The cancel comes to an end.
  result_eq : result = .ok
    (decide (m.store.mark id ≠ .clean ∧ m.journal.table.Holds (m.store.get id).block))
  -- A buffer that is known to be clean keeps the table as it is.
  table_eq : m.store.mark id = .clean → m'.journal.table = m.journal.table
  -- Otherwise the record of the block is taken out, and no other one.
  records_perm : m.store.mark id ≠ .clean → m'.journal.table.records.Perm
    (m.journal.table.records.filter fun r => r.block ≠ (m.store.get id).block)
  not_holds : m.store.mark id ≠ .clean → ¬m'.journal.table.Holds (m.store.get id).block
  -- The other blocks are revoked where they were.
  revokedIn_eq : ∀ b, b ≠ (m.store.get id).block → m'.journal.revokedIn b = m.journal.revokedIn b
  -- The buffer is known to be clean.
  mark_self : m'.store.mark id = .clean
  -- No other buffer knows anything else, but for the one in the cache if the buffer is not
  -- there and was not known to be clean.
  mark_eq : ∀ other, other ≠ id →
    ¬((m.store.get id).flags.hashed = false ∧ m.store.mark id ≠ .clean ∧
      m.store.lookup (m.store.get id).block (m.store.get id).size = some other) →
    m'.store.mark other = m.store.mark other
  -- That one is not marked afterwards.
  mark_alias : ∀ other, (m.store.get id).flags.hashed = false → m.store.mark id ≠ .clean →
    m.store.lookup (m.store.get id).block (m.store.get id).size = some other →
    m'.store.mark other ≠ .revoked
  -- Nothing else has changed in any buffer.
  alike : m.store.AlikeButMarks m'.store
  -- The cache has the buffers it had.
  mapped?_eq : ∀ b, m'.store.mapped? b = m.store.mapped? b
  size_eq : m'.store.buffers.size = m.store.buffers.size
  -- Neither the log nor the superblock has changed.
  surroundings_eq : m'.surroundings = m.surroundings

/-- A cancel of a buffer that is known to be clean is counted, and that is all. -/
theorem cancel_of_known_clean {m : Mount σ} (hchecks : m.journal.config.expensiveChecks = false)
    {id : BufferId} (hclean : m.store.mark id = .clean) (tid : Tid) :
    m.cancel tid id = (.ok false, m.countFastCancel) := by
  have hsame : m.modifyBuffer id Buffer.markClean = m := by
    have hstore : m.store.modify id Buffer.markClean = m.store := by
      refine Store.modify_eq_self ?_
      rw [Buffer.markClean, ← hclean]
      rfl
    rw [modifyBuffer, hstore]
  rw [cancel_eq_of_clean tid hclean, hsame]
  have hskip : m.countFastCancel.checkCancelled (m.store.get id).block =
      (.ok (), m.countFastCancel) := by
    rw [checkCancelled, if_neg]
    change ¬m.journal.config.expensiveChecks = true
    rw [hchecks]
    exact Bool.false_ne_true
  rw [hskip]
  rfl

theorem alikeButMarks_cancel (m : Mount σ) (tid : Tid) (id : BufferId) :
    m.store.AlikeButMarks (m.cancel tid id).2.store := by
  have hclean := m.store.alikeButMarks_modify id fun _ => .clean
  rcases store_cancel m tid id with h | ⟨other, h⟩
  · rw [h]
    exact hclean
  · rw [h]
    exact hclean.trans (Store.alikeButMarks_modify _ other RevokeState.withoutRevoke)

-- A cancel of a buffer that is known to be clean leaves everything alone.
theorem CancelEffect.of_clean {m : Mount σ} {id : BufferId} (hclean : m.store.mark id = .clean) :
    CancelEffect m id (.ok false) m.countFastCancel where
  result_eq := by simp only [hclean, ne_eq, not_true_eq_false, false_and, decide_false]
  table_eq _ := rfl
  records_perm hmark := absurd hclean hmark
  not_holds hmark := absurd hclean hmark
  revokedIn_eq _ _ := rfl
  mark_self := hclean
  mark_eq _ _ _ := rfl
  mark_alias _ _ hmark := absurd hclean hmark
  alike _ := rfl
  mapped?_eq _ := rfl
  size_eq := rfl
  surroundings_eq := rfl

/-- A cancel does what it should and nothing else, whatever state its buffer is in. -/
theorem cancel_effect {m : Mount σ} (hm : m.journal.table.IsMap)
    (hchecks : m.journal.config.expensiveChecks = false) {id : BufferId}
    (hid : id < m.store.buffers.size) (tid : Tid) :
    CancelEffect m id (m.cancel tid id).1 (m.cancel tid id).2 := by
  by_cases hmark : m.store.mark id = .clean
  · rw [cancel_of_known_clean hchecks hmark]
    exact .of_clean hmark
  have halike := alikeButMarks_cancel m tid id
  have hsurroundings := surroundings_cancel m tid id
  have hcase := cancel_case hm tid id
  generalize (m.cancel tid id).1 = result at hcase ⊢
  generalize (m.cancel tid id).2 = m' at hcase halike hsurroundings ⊢
  cases hcase with
  | fast _ _ counters hclean hresult hmarks hcore => exact absurd hclean hmark
  | searched _ table pool counters hneeded htable hmarks hcore =>
      have htable' : m'.journal.table = table := congrArg (fun m => m.journal.table) hcore
      refine ⟨?_, fun hclean => absurd hclean hmark, fun _ => ?_, fun _ => ?_, fun b hb => ?_, ?_,
        fun other ho hnot => ?_, fun other hhashed _ hother => ?_, halike, hmarks.mapped?_eq,
        hmarks.size_eq, hsurroundings⟩
      · simp only [ne_eq, hmark, not_false_eq_true, true_and]
      · rw [htable']
        exact htable.records_perm hm
      · rw [htable', htable.holds_iff]
        exact fun h => h.1 rfl
      · rw [Journal.revokedIn, Journal.revokedIn, htable', htable.lookup_eq, if_neg hb]
      · rw [hmarks.mark_eq id hid, if_pos rfl]
      · refine hmarks.mark_eq_of_eq fun state => ?_
        rw [if_neg (Ne.symm ho), if_neg]
        intro halias
        rcases Store.cachedAlias_eq_some_iff.mp halias with ⟨hhashed, hlookup, _⟩
        exact hnot ⟨hhashed, hmark, hlookup⟩
      · by_cases hlt : other < m.store.buffers.size
        · rw [hmarks.mark_eq other hlt]
          by_cases ho : other = id
          · rw [if_pos ho.symm]
            simp only [ne_eq, reduceCtorEq, not_false_eq_true]
          · rw [if_neg (Ne.symm ho),
              if_pos (Store.cachedAlias_eq_some_iff.mpr ⟨hhashed, hother, ho⟩)]
            exact RevokeState.withoutRevoke_ne_revoked _
        · rw [(Store.aside_of_size_le (hmarks.size_eq ▸ Nat.le_of_not_lt hlt)).2]
          simp only [ne_eq, reduceCtorEq, not_false_eq_true]

/-- In every state that a journal without expensive checks gets into, a cancel of any buffer
    keeps to the block of the buffer, and another cancel right after it is counted and does
    nothing else. -/
theorem cancel_is_local [LogService σ] {config : Config} {m : Mount σ}
    (hm : m.Reachable config) (hchecks : config.expensiveChecks = false) {id : BufferId}
    (hid : id < m.store.buffers.size) (tid : Tid) :
    CancelEffect m id (m.cancel tid id).1 (m.cancel tid id).2 ∧
      ∀ next, (m.cancel tid id).2.cancel next id =
        (.ok false, (m.cancel tid id).2.countFastCancel) := by
  have horderly := hm.orderly
  have heffect := cancel_effect horderly.isMap (horderly.config_eq ▸ hchecks) hid tid
  have hconfig : (m.cancel tid id).2.journal.config = config :=
    (congrArg Surroundings.config heffect.surroundings_eq).trans horderly.config_eq
  exact ⟨heffect, cancel_of_known_clean (hconfig ▸ hchecks) heffect.mark_self⟩

/-- A block is revoked while the cache has its buffer. The cache drops the buffer and makes
    another one, which somebody marks as revoked, and somebody makes a third one outside
    the cache. -/
def detachedAlias : Mount RingLog :=
  let m := (smallMount .debug).runActs
    [.call (.getOrCreate ⟨60⟩), .call (.revoke ⟨4⟩ ⟨60⟩ none), .call (.evict ⟨60⟩),
      .call (.getOrCreate ⟨60⟩)]
  (m.modifyBuffer 1 (BufferEdit.setRevoke .revoked).apply).act (.call (.detach ⟨60⟩ 1024))

-- The third buffer takes the mark of the second one back, but not that of the first one.
theorem cancel_is_local_detached :
    detachedAlias.Reachable smallConfig ∧ smallConfig.expensiveChecks = false ∧
      2 < detachedAlias.store.buffers.size ∧
      (detachedAlias.cancel ⟨4⟩ 2).1 = .ok true ∧
      ¬(detachedAlias.cancel ⟨4⟩ 2).2.journal.table.Holds ⟨60⟩ ∧
      detachedAlias.store.mark 1 = .revoked ∧
      (detachedAlias.cancel ⟨4⟩ 2).2.store.mark 1 ≠ .revoked ∧
      (detachedAlias.cancel ⟨4⟩ 2).2.store.mark 0 = .revoked ∧
      ((detachedAlias.cancel ⟨4⟩ 2).2.cancel ⟨4⟩ 2).1 = .ok false := by
  have hmounted : (smallMount .debug).Reachable smallConfig :=
    .mounted create_smallStore (create_smallMount .debug)
  have hreachable : detachedAlias.Reachable smallConfig := by
    rw [detachedAlias]
    exact .act (.edit (hmounted.runActs _) 1 (.setRevoke .revoked)) _
  have hsize : 2 < detachedAlias.store.buffers.size := by decide +kernel
  have hmark : detachedAlias.store.mark 2 ≠ .clean := by decide +kernel
  have hholds : detachedAlias.journal.table.Holds (detachedAlias.store.get 2).block := by
    decide +kernel
  have hhashed : (detachedAlias.store.get 2).flags.hashed = false := by decide +kernel
  have hlookup : detachedAlias.store.lookup (detachedAlias.store.get 2).block
      (detachedAlias.store.get 2).size = some 1 := by decide +kernel
  rcases cancel_is_local hreachable rfl hsize ⟨4⟩ with ⟨heffect, hagain⟩
  refine ⟨hreachable, rfl, hsize, ?_, heffect.not_holds hmark, by decide +kernel,
    heffect.mark_alias 1 hhashed hmark hlookup, ?_, ?_⟩
  · rw [heffect.result_eq, decide_eq_true ⟨hmark, hholds⟩]
  · rw [heffect.mark_eq 0 (by decide) fun h => ?_]
    · decide +kernel
    · rw [hlookup] at h
      exact absurd h.2.2 (by decide)
  · rw [hagain]

end Mount

end BlockJournal
