import BlockJournal.Proofs.Aliases
import BlockJournal.Proofs.Mount.Log

/-!
# Buffers that Deny a Revoke

What the check of buffers against each other is good for.

With expensive checks a revoke that was handed a buffer looks at the one in the cache, too.
If that is another buffer and known to be clean, the revoke is about to leave a buffer in
the cache that says the opposite of the table, and the check fails. A debug build stops
there, so in a debug build the cache never denies a revoke. A release build reports the
broken rule and goes on to record the block and to mark the other buffer.

`denies_after_iff` follows the buffers in the cache through every call, and `denies_iff` says
after which runs one of them denies a revoke: exactly if a release build was let off by the
check, and nothing has put it right since.

## Main definitions

* `Mount.Denies`: The buffer in the cache is known to be clean, but its block has a record.
* `Mount.PassesOver`, `Mount.Admits`: Calls that bring this about, and that end it.

## Theorems

* `mapped_after_iff`: What stays in the cache.
* `denies_after_iff`: How buffers come to deny a revoke, and how they stop.
* `not_passesOver`: A debug build stops before.
* `denies_iff`: After which runs a buffer denies a revoke.
-/

namespace BlockJournal

namespace Mount

variable {σ : Type} [LogService σ] {config : Config} {cache : BlockSize}

omit [LogService σ] in
/-- The buffer that the cache has of a block is known to be clean, but the block has a
    record. -/
def Denies (m : Mount σ) (b : BlockNumber) : Prop :=
  ∃ id, m.store.mapped? b = some id ∧ m.store.mark id = .clean ∧ m.journal.table.Holds b

/-- A revoke that records a block through another buffer than the one in the cache, although
    that is known to be clean. -/
def PassesOver (m : Mount σ) (b : BlockNumber) : Call → Prop
  | .revoke tid block given =>
      block = b ∧ m.Records tid block given ∧ ∃ id other, m.store.mapped? b = some id ∧
        m.store.mark id = .clean ∧ given = some other ∧ other ≠ id
  | .getOrCreate _ | .read .. | .evict _ | .detach .. | .cancel .. | .commit _ => False

/-- A call after which the buffer in the cache does not deny a revoke: a commit, the end of
    its time in the cache, a revoke that marks it, or a cancel of its block through a buffer
    that is not known to be clean. -/
def Admits (m : Mount σ) (b : BlockNumber) : Call → Prop
  | .commit _ => True
  | .evict block => block = b
  | .revoke tid block given =>
      m.Records tid block given ∧
        ∃ id, m.store.mapped? b = some id ∧ (m.hold block given).buffer? = some id
  | .cancel _ id => (m.store.get id).block = b ∧ m.store.mark id ≠ .clean
  | .getOrCreate _ | .read .. | .detach .. => False

/-- A buffer that exists stays in the cache until its block is dropped, and none comes back. -/
theorem mapped_after_iff {m : Mount σ} (hs : m.Sound config cache) (c : Call) {b : BlockNumber}
    {id : BufferId} (hid : id < m.store.buffers.size) :
    (m.after c).store.mapped? b = some id ↔ m.store.mapped? b = some id ∧ c ≠ .evict b := by
  have hbrings : c.bringsBuffers = true →
      ((m.after c).store.mapped? b = some id ↔ m.store.mapped? b = some id) := by
    intro hc
    rcases m.grows_after hc with ⟨_, hgrows, _⟩
    exact ⟨fun h => (hgrows.new h).resolve_right (Nat.not_le_of_lt hid), hgrows.kept⟩
  cases c with
  | getOrCreate block =>
      rw [hbrings rfl]
      simp only [ne_eq, reduceCtorEq, not_false_eq_true, and_true]
  | read device block contended =>
      rw [hbrings rfl]
      simp only [ne_eq, reduceCtorEq, not_false_eq_true, and_true]
  | detach block size =>
      rw [hbrings rfl]
      simp only [ne_eq, reduceCtorEq, not_false_eq_true, and_true]
  | evict block =>
      rw [store_evict, Store.mapped?_evict]
      by_cases hb : b = block
      · simp only [hb, if_true, reduceCtorEq, ne_eq, not_true_eq_false, and_false]
      · simp only [hb, if_false, ne_eq, Call.evict.injEq, Ne.symm hb, not_false_eq_true, and_true]
  | revoke tid block given =>
      rcases remarked_revoke hs.isMap tid block given with ⟨f, hmarks⟩
      simp only [after, hmarks.mapped?_eq, ne_eq, reduceCtorEq, not_false_eq_true, and_true]
  | cancel tid other =>
      rcases remarked_cancel hs.isMap tid other with ⟨f, hmarks⟩
      simp only [after, hmarks.mapped?_eq, ne_eq, reduceCtorEq, not_false_eq_true, and_true]
  | commit tid =>
      rcases m.commit_core tid with ⟨store, counters, hext, hcore⟩
      have hstore : (m.after (.commit tid)).store = store := congrArg (fun m => m.store) hcore
      rw [hstore, hext.mapped?_eq]
      simp only [ne_eq, reduceCtorEq, not_false_eq_true, and_true]

omit [LogService σ] in
-- What denies a revoke is overlooked by it.
theorem denies_iff_overlooked {m : Mount σ} (hs : m.store.Coherent) (b : BlockNumber) :
    m.Denies b ↔ ∃ id, m.store.mapped? b = some id ∧ m.Overlooked id := by
  constructor
  · rintro ⟨id, hb, hclean, hheld⟩
    exact ⟨id, hb, hclean, by rw [hs.block_eq hb]; exact hheld⟩
  · rintro ⟨id, hb, hclean, hheld⟩
    rw [hs.block_eq hb] at hheld
    exact ⟨id, hb, hclean, hheld⟩

omit [LogService σ] in
-- A buffer that does not exist is not known to be clean.
theorem lt_size_of_clean {m : Mount σ} {id : BufferId} (h : m.store.mark id = .clean) :
    id < m.store.buffers.size := by
  by_contra hid
  rw [(Store.aside_of_size_le (Nat.le_of_not_lt hid)).2] at h
  exact absurd h (by simp only [reduceCtorEq, not_false_eq_true])

-- A revoke overlooks the buffer in the cache exactly if it passes over it.
theorem overlooks_iff_passesOver {m : Mount σ} (hs : m.Sound config cache)
    (hsize : m.store.blockSize = m.journal.blockSize) {b : BlockNumber} {id : BufferId}
    (hb : m.store.mapped? b = some id) (c : Call) : m.Overlooks id c ↔ m.PassesOver b c := by
  cases c with
  | revoke tid block given =>
      have hblock := hs.coherent.block_eq hb
      simp only [Overlooks, PassesOver, hblock, hb, Option.some.injEq]
      constructor
      · rintro ⟨rfl, hrecords, hclean, hmissed⟩
        refine ⟨rfl, hrecords, id, ?_⟩
        cases given with
        | some other => exact ⟨other, rfl, hclean, rfl, fun h => hmissed (congrArg some h)⟩
        | none =>
            -- Without a buffer of its own a revoke marks the one in the cache.
            have hheld := @buffer?_hold _ m hsize block none
              (fun _ h => absurd h (by simp only [reduceCtorEq, not_false_eq_true]))
            exact absurd (hheld.trans hb) hmissed
      · rintro ⟨rfl, hrecords, _, other, rfl, hclean, rfl, hne⟩
        exact ⟨rfl, hrecords, hclean, fun h => hne (Option.some.inj h)⟩
  | getOrCreate | read | evict | detach | cancel | commit => exact Iff.rfl

-- It is noticed exactly by what makes the cache admit a revoke, evictions apart.
theorem notices_iff_admits {m : Mount σ} (hs : m.Sound config cache) {b : BlockNumber}
    {id : BufferId} (hb : m.store.mapped? b = some id) {c : Call} (hc : c ≠ .evict b) :
    m.Notices id c ↔ m.Admits b c := by
  cases c with
  | revoke tid block given =>
      simp only [Notices, Admits, hb, Option.some.injEq, exists_eq_left']
  | cancel tid other =>
      rw [Notices, Admits, hs.coherent.block_eq hb]
  | evict block =>
      refine iff_of_false not_false fun h => hc ?_
      rw [show block = b from h]
  | getOrCreate | read | detach | commit => exact Iff.rfl

/-- The cache comes to deny a revoke when one passes over its buffer, and does so until
    something makes it admit the revoke. -/
theorem denies_after_iff {m : Mount σ} (hs : m.Sound config cache)
    (hsize : m.store.blockSize = m.journal.blockSize) (c : Call) (b : BlockNumber) :
    (m.after c).Denies b ↔ m.PassesOver b c ∨ (m.Denies b ∧ ¬ m.Admits b c) := by
  rw [denies_iff_overlooked (hs.after c).coherent, denies_iff_overlooked hs.coherent]
  constructor
  · rintro ⟨id, hafter, hover⟩
    rcases (overlooked_after_iff hs c id).mp hover with hstart | ⟨hbefore, hnotice⟩
    · have hclean : m.store.mark id = .clean := by
        cases c with
        | revoke tid block given => exact hstart.2.2.1
        | getOrCreate | read | evict | detach | cancel | commit => exact absurd hstart not_false
      have hb := ((mapped_after_iff hs c (lt_size_of_clean hclean)).mp hafter).1
      exact Or.inl ((overlooks_iff_passesOver hs hsize hb c).mp hstart)
    · rcases (mapped_after_iff hs c (lt_size_of_clean hbefore.1)).mp hafter with ⟨hb, hc⟩
      rw [notices_iff_admits hs hb hc] at hnotice
      exact Or.inr ⟨⟨id, hb, hbefore⟩, hnotice⟩
  · rintro (hpass | ⟨⟨id, hb, hbefore⟩, hadmit⟩)
    · have hmapped : ∃ id, m.store.mapped? b = some id ∧ m.store.mark id = .clean ∧
          c ≠ .evict b := by
        cases c with
        | revoke tid block given =>
            rcases hpass with ⟨_, _, id, _, hb, hclean, _, _⟩
            exact ⟨id, hb, hclean, by simp only [ne_eq, reduceCtorEq, not_false_eq_true]⟩
        | getOrCreate | read | evict | detach | cancel | commit => exact absurd hpass not_false
      rcases hmapped with ⟨id, hb, hclean, hc⟩
      exact ⟨id, (mapped_after_iff hs c (lt_size_of_clean hclean)).mpr ⟨hb, hc⟩,
        (overlooked_after_iff hs c id).mpr
          (Or.inl ((overlooks_iff_passesOver hs hsize hb c).mpr hpass))⟩
    · have hc : c ≠ .evict b := by
        rintro rfl
        exact hadmit rfl
      rw [← notices_iff_admits hs hb hc] at hadmit
      exact ⟨id, (mapped_after_iff hs c (lt_size_of_clean hbefore.1)).mpr ⟨hb, hc⟩,
        (overlooked_after_iff hs c id).mpr (Or.inr ⟨hbefore, hadmit⟩)⟩

omit [LogService σ] in
-- A debug build that gets ready has found the buffers to agree.
theorem aliasAgrees_of_prepare {m : Mount σ} (hbuild : m.build = .debug)
    (hchecks : m.journal.config.expensiveChecks = true) {block : BlockNumber} {id : BufferId}
    (h : (m.prepare block (some id)).1 = .ok ()) : m.aliasAgrees block id = true := by
  have hcore := core_addFeatures m m.journal.config.neededFeatures
  unfold prepare at h
  rcases hr : m.addFeatures m.journal.config.neededFeatures with ⟨e | ⟨⟩, m'⟩
  · simp only [hr, reduceCtorEq] at h
  · rw [hr] at h hcore
    have hagrees : m'.aliasAgrees block id = m.aliasAgrees block id := by
      have hstore : m'.store = m.store := store_of_core hcore
      have hsize : m'.journal.blockSize = m.journal.blockSize :=
        congrArg (fun m => m.journal.blockSize) hcore
      rw [aliasAgrees, aliasAgrees, hstore, hsize]
    have hconfig : m'.journal.config = m.journal.config :=
      congrArg (fun m => m.journal.config) hcore
    have hbuild' : m'.build = .debug := (congrArg (fun m => m.build) hcore).trans hbuild
    have hfst := check_fst m' .cleanAlias (m.aliasAgrees block id)
    rw [hbuild'] at hfst
    simp only [hconfig, checkAlias, hchecks, if_true, hagrees] at h
    by_contra hdiffer
    rw [if_neg hdiffer] at hfst
    rcases hc : m'.check .cleanAlias (m.aliasAgrees block id) with ⟨answer, m''⟩
    rw [hc] at hfst
    simp only [] at hfst
    subst hfst
    rw [hc] at h
    split at h
    · exact absurd h (by simp only [reduceCtorEq, not_false_eq_true])
    · exact absurd h (by simp only [reduceCtorEq, not_false_eq_true])

/-- With expensive checks a debug build passes over no buffer: it stops before. -/
theorem not_passesOver {m : Mount σ} (hbuild : m.build = .debug)
    (hchecks : m.journal.config.expensiveChecks = true)
    (hsize : m.store.blockSize = m.journal.blockSize) (b : BlockNumber) (c : Call) :
    ¬ m.PassesOver b c := by
  intro hpass
  cases c with
  | revoke tid block given =>
      rcases hpass with ⟨rfl, hrecords, id, other, hb, hclean, rfl, hne⟩
      have hagrees := aliasAgrees_of_prepare hbuild hchecks (prepare_of_revoke hrecords.1)
      have hmark : (m.store.get id).flags.revoke = .clean := hclean
      simp only [aliasAgrees, Store.lookup, hsize, if_true, hb, Ne.symm hne, hmark, bne_self_eq_false,
        decide_false, Bool.or_false, Bool.false_eq_true] at hagrees
  | getOrCreate | read | evict | detach | cancel | commit => exact hpass

/-- No call changes the build. -/
theorem build_after (m : Mount σ) (c : Call) : (m.after c).build = m.build := by
  by_cases hcommit : ∃ tid, c = .commit tid
  · rcases hcommit with ⟨tid, rfl⟩
    rcases m.commit_core tid with ⟨store, counters, _, hcore⟩
    exact congrArg (fun m => m.build) hcore
  · by_cases hrevoke : ∃ tid block given, c = .revoke tid block given
    · rcases hrevoke with ⟨tid, block, given, rfl⟩
      rcases (m.surroundings_revoke tid block given).1 with h | ⟨_, _, h⟩
      · exact (congrArg Surroundings.build h).trans (m.surroundings.build_featured _)
      · exact (congrArg Surroundings.build h).trans (m.surroundings.build_featured _)
    · exact congrArg Surroundings.build (m.surroundings_after
        (fun tid block given h => hrevoke ⟨tid, block, given, h⟩) fun tid h => hcommit ⟨tid, h⟩)

/-- With expensive checks and a cache of the journal's block size, the cache denies a revoke
    after exactly those runs of a release build in which a revoke passed over its buffer and
    nothing has made it admit the revoke since. After a run of a debug build it never does. -/
theorem denies_iff {build : Build} {store : Store} {log : σ} {m : Mount σ}
    (hstore : Store.create config.blockSize.toNat = .ok store)
    (hcreate : create build config store log = .ok m) (hchecks : config.expensiveChecks = true)
    (calls : List Call) (b : BlockNumber) :
    (m.run calls).Denies b ↔
      build = .release ∧ ∃ before c since, calls = before ++ c :: since ∧
        (m.run before).PassesOver b c ∧
        Obeys (fun m c => ¬ m.Admits b c) (m.run (before ++ [c])) since := by
  rcases sound_create hstore hcreate with ⟨hs, hrecords, _, hbytes, _, hbuild, _⟩
  have hnot : ¬ m.Denies b := by
    rintro ⟨_, _, _, hheld⟩
    rw [Table.holds_iff_mem hs.isMap, hrecords] at hheld
    exact absurd hheld List.not_mem_nil
  let Kept (m : Mount σ) : Prop := m.Sound config store.blockSize ∧ m.build = build
  have hsize : ∀ {m : Mount σ}, Kept m → m.store.blockSize = m.journal.blockSize :=
    fun h => h.1.blockSize_eq hbytes
  have hkeep : ∀ (m : Mount σ) c, Kept m → True → Kept (m.after c) :=
    fun m c h _ => ⟨h.1.after c, (m.build_after c).trans h.2⟩
  have hsince := @run_since σ _ (fun _ _ => True) Kept (·.Denies b) (·.PassesOver b)
    (·.Admits b) hkeep (fun _ c h _ => denies_after_iff h.1 (hsize h) c b) m ⟨hs, hbuild⟩ hnot
    calls (obeys_of_forall (fun _ _ => trivial) m calls)
  rw [hsince, iff_and_self]
  rintro ⟨before, c, since, _, hpass, _⟩
  have hkept := run_induction hkeep ⟨hs, hbuild⟩ (obeys_of_forall (fun _ _ => trivial) m before)
  cases build with
  | release => rfl
  | debug =>
      have hchecks' : (m.run before).journal.config.expensiveChecks = true := by
        rw [hkept.1.config_eq]
        exact hchecks
      exact absurd hpass (not_passesOver hkept.2 hchecks' (hsize hkept) b c)

/-- The settings of a small journal with expensive checks. -/
def checkedConfig : Config := { smallConfig with expensiveChecks := true }

/-- A small journal with expensive checks that was just mounted. -/
def checkedMount (build : Build) : Mount RingLog :=
  { smallMount build with journal.config := checkedConfig }

/-- The buffer in the cache is cancelled, and then its block is revoked through another. -/
def deniedCalls : List Call :=
  [.getOrCreate ⟨5⟩, .cancel ⟨1⟩ 0, .detach ⟨5⟩ 1024, .revoke ⟨1⟩ ⟨5⟩ (some 1)]

-- A debug build stops at the revoke, and the cache says what the table says.
theorem denies_iff_debug :
    Mount.create .debug checkedConfig smallStore smallLog = .ok (checkedMount .debug) ∧
      ¬ ((checkedMount .debug).run deniedCalls).Denies ⟨5⟩ := by
  have hcreate : Mount.create .debug checkedConfig smallStore smallLog =
      .ok (checkedMount .debug) := rfl
  have hstore : Store.create checkedConfig.blockSize.toNat = .ok smallStore := create_smallStore
  refine ⟨hcreate, fun hdenies => ?_⟩
  have hrelease := ((denies_iff hstore hcreate rfl deniedCalls ⟨5⟩).mp hdenies).1
  exact absurd hrelease (by simp only [reduceCtorEq, not_false_eq_true])

-- A release build reports the broken rule and records the block all the same.
theorem denied_in_release :
    Mount.create .release checkedConfig smallStore smallLog = .ok (checkedMount .release) ∧
      checkedConfig.expensiveChecks = true ∧
      (((checkedMount .release).run [.getOrCreate ⟨5⟩, .cancel ⟨1⟩ 0, .detach ⟨5⟩ 1024]).revoke
        ⟨1⟩ ⟨5⟩ (some 1)).1 = .ok () ∧
      .ruleBroken .cleanAlias ∈ ((checkedMount .release).run deniedCalls).trace ∧
      ((checkedMount .release).run deniedCalls).Denies ⟨5⟩ := by
  refine ⟨rfl, rfl, by decide +kernel, by decide +kernel, 0, ?_⟩
  decide +kernel

end Mount

end BlockJournal
