import BlockJournal.Proofs.Commit.Frame
import BlockJournal.Proofs.Revocation
import Mathlib.Data.List.Induction

/-!
# Runs of a Journal

Everything that can be asked of a mounted journal and its cache, in any order.

A run is a list of calls. It goes on after a call that failed or was stopped,
with whatever the call left behind. What callers promise is a rule on calls, and
it may look at the state in which the call is made, so `Mount.Obeys` walks along
the run. What holds of every run is proved by `run_induction`: it holds when the
journal is mounted, and every call keeps it.

`Mount.Sound` is what every call keeps, whatever callers do: the table is a map of
blocks that fit its records, the pool has in use what the table holds, and the
index of the cache leads where it says.

## Main definitions

* `Call`: What can be asked.
* `Mount.after`, `Mount.run`: A mount after a call, and after some calls.
* `Mount.Obeys`: A run in which every call keeps to a rule.
* `Mount.Enters`, `Mount.Leaves`: Calls that give a block a record, and that take it.
* `Mount.Sound`: What every call keeps.
* `Mount.Orderly`, `Mount.Housed`: The parts of it that do not depend on who else uses the
  pool.

## Theorems

* `run_induction`: What every call keeps holds after every run.
* `run_since`: What some calls bring about and others end.
* `grows_after`: Calls that bring in buffers do nothing else.
* `holds_after`: Which blocks have a record after a call.
* `orderly_create`, `Orderly.after`: Every call keeps a mount orderly.
* `Housed.after`: Every call keeps the cache in order.
* `sound_create`, `Sound.after`, `Sound.run`: Every run is sound.
-/

namespace BlockJournal

-- The block size of settings that are in order is the one they give.
theorem Config.bytes_of_check {c : Config} {size : BlockSize} (h : c.check = .ok size) :
    size.bytes = c.blockSize.toNat := by
  unfold check at h
  split at h
  · exact absurd h (by simp only [reduceCtorEq, not_false_eq_true])
  · rename_i size' hsize
    have hok : size' = size := by
      split at h
      · exact absurd h (by simp only [reduceCtorEq, not_false_eq_true])
      · split at h
        · exact absurd h (by simp only [reduceCtorEq, not_false_eq_true])
        · split at h
          · exact absurd h (by simp only [reduceCtorEq, not_false_eq_true])
          · exact Except.ok.inj h
    rw [← hok]
    exact BlockSize.bytes_of_ofNat? hsize

-- A new journal has the settings it was given and an empty table.
theorem Journal.create_eq_ok {config : Config} {j : Journal} (h : create config = .ok j) :
    j.config = config ∧ j.blockSize.bytes = config.blockSize.toNat ∧ j.table.IsMap ∧
      j.table.records = [] := by
  unfold create at h
  cases hcheck : config.check with
  | error e => simp only [hcheck, reduceCtorEq] at h
  | ok size =>
      cases htable : Table.create config.revokeHashSize.toNat with
      | error e => simp only [hcheck, htable, reduceCtorEq] at h
      | ok table =>
          simp only [hcheck, htable, Except.ok.injEq] at h
          rw [← h]
          exact ⟨rfl, Config.bytes_of_check hcheck, Table.isMap_create htable⟩

-- A new journal advertises nothing.
theorem Journal.features_create {config : Config} {j : Journal} (h : create config = .ok j) :
    j.features = 0 := by
  unfold create at h
  split at h
  · exact absurd h (by simp only [reduceCtorEq, not_false_eq_true])
  · split at h
    · exact absurd h (by simp only [reduceCtorEq, not_false_eq_true])
    · rw [← Except.ok.inj h]

-- Giving back records does not change the limit of a pool.
theorem Pool.limit_release (p : Pool) (count : Nat) : (p.release count).limit = p.limit := by
  unfold release
  split
  · rfl
  · rfl

/-- What can be asked of a mounted journal and its cache. -/
inductive Call where
  -- The buffer of a block, full of zeros if the cache does not have it.
  | getOrCreate (block : BlockNumber)
  -- The buffer of a block, read from a device if the cache does not have it.
  | read (device : Device) (block : BlockNumber) (contended : Bool)
  -- A block is dropped from the cache.
  | evict (block : BlockNumber)
  -- A buffer of a block that the cache does not know about.
  | detach (block : BlockNumber) (size : Nat)
  -- A block is revoked.
  | revoke (tid : Tid) (block : BlockNumber) (given : Option BufferId)
  -- The revoke of a buffer's block is taken back.
  | cancel (tid : Tid) (id : BufferId)
  -- The records are written to the log.
  | commit (tid : Tid)
  deriving DecidableEq, Repr

/-- A call that brings in buffers and does nothing else. -/
def Call.bringsBuffers : Call → Bool
  | getOrCreate _ | read .. | detach .. => true
  | evict _ | revoke .. | cancel .. | commit _ => false

namespace Mount

variable {σ : Type} [LogService σ]

/-- A mount after a call, whatever came of it. -/
def after (m : Mount σ) : Call → Mount σ
  | .getOrCreate block => (m.getOrCreate block).2
  | .read device block contended => (m.readBuffer device block contended).2
  | .evict block => (m.evict block).2
  | .detach block size => { m with store := (m.store.detached block size).2 }
  | .revoke tid block given => (m.revoke tid block given).2
  | .cancel tid id => (m.cancel tid id).2
  | .commit tid => (m.commit tid).2

/-- A mount after some calls. -/
def run (m : Mount σ) (calls : List Call) : Mount σ := calls.foldl after m

@[simp] theorem run_nil (m : Mount σ) : m.run [] = m := rfl

@[simp] theorem run_cons (m : Mount σ) (c : Call) (calls : List Call) :
    m.run (c :: calls) = (m.after c).run calls := rfl

theorem run_append (m : Mount σ) (calls calls' : List Call) :
    m.run (calls ++ calls') = (m.run calls).run calls' :=
  List.foldl_append

/-- Every call of a run keeps to a rule, in the state in which it is made. -/
def Obeys (rule : Mount σ → Call → Prop) : Mount σ → List Call → Prop
  | _, [] => True
  | m, c :: calls => rule m c ∧ Obeys rule (m.after c) calls

theorem obeys_append {rule : Mount σ → Call → Prop} (m : Mount σ) (calls calls' : List Call) :
    Obeys rule m (calls ++ calls') ↔ Obeys rule m calls ∧ Obeys rule (m.run calls) calls' := by
  induction calls generalizing m with
  | nil => simp only [List.nil_append, Obeys, run_nil, true_and]
  | cons c calls ih => simp only [List.cons_append, Obeys, run_cons, ih, and_assoc]

-- Calls that always keep to a rule do so along every run.
theorem obeys_of_forall {rule : Mount σ → Call → Prop} (hrule : ∀ m c, rule m c) (m : Mount σ)
    (calls : List Call) : Obeys rule m calls := by
  induction calls generalizing m with
  | nil => trivial
  | cons c calls ih => exact ⟨hrule m c, ih _⟩

/-- What holds at the start of a run and is kept by every call that keeps to the
    rule holds at its end. -/
theorem run_induction {rule : Mount σ → Call → Prop} {P : Mount σ → Prop}
    (hstep : ∀ m c, P m → rule m c → P (m.after c)) {m : Mount σ} {calls : List Call}
    (hm : P m) (hcalls : Obeys rule m calls) : P (m.run calls) := by
  induction calls generalizing m with
  | nil => exact hm
  | cons c calls ih => exact ih (hstep m c hm hcalls.1) hcalls.2

/-- What some calls bring about, others end and the rest leave alone holds after a run
    exactly if it was brought about and not ended since. -/
theorem run_since {rule : Mount σ → Call → Prop} {I P : Mount σ → Prop}
    {Starts Ends : Mount σ → Call → Prop}
    (hkeep : ∀ m c, I m → rule m c → I (m.after c))
    (hstep : ∀ m c, I m → rule m c → (P (m.after c) ↔ Starts m c ∨ (P m ∧ ¬ Ends m c)))
    {m : Mount σ} (hm : I m) (hnot : ¬ P m) {calls : List Call} (hcalls : Obeys rule m calls) :
    P (m.run calls) ↔ ∃ before c since, calls = before ++ c :: since ∧ Starts (m.run before) c ∧
      Obeys (fun m c => ¬ Ends m c) (m.run (before ++ [c])) since := by
  induction calls using List.reverseRecOn with
  | nil =>
      refine iff_of_false hnot ?_
      rintro ⟨before, c, since, hsplit, _⟩
      exact absurd hsplit (by simp only [List.nil_eq, List.append_eq_nil_iff, reduceCtorEq,
        and_false, not_false_eq_true])
  | append_singleton calls last ih =>
      rcases (obeys_append m calls [last]).mp hcalls with ⟨hcalls', hlast, _⟩
      rw [run_append, run_cons, run_nil, hstep _ last (run_induction hkeep hm hcalls') hlast,
        ih hcalls']
      constructor
      · rintro (hstart | ⟨⟨before, c, since, rfl, hstart, hsince⟩, hend⟩)
        · exact ⟨calls, last, [], rfl, hstart, trivial⟩
        · refine ⟨before, c, since ++ [last], by simp only [List.append_assoc, List.cons_append],
            hstart, (obeys_append _ _ _).mpr ⟨hsince, ?_, trivial⟩⟩
          rw [← run_append, List.append_assoc]
          exact hend
      · rintro ⟨before, c, since, hsplit, hstart, hsince⟩
        -- What started it was the last call, or it had started before.
        rcases List.eq_nil_or_concat since with rfl | ⟨since, final, rfl⟩
        · rcases List.append_inj' hsplit rfl with ⟨rfl, hc⟩
          rw [List.singleton_inj.mp hc]
          exact Or.inl hstart
        · rw [List.concat_eq_append, ← List.cons_append, ← List.append_assoc] at hsplit
          rcases List.append_inj' hsplit rfl with ⟨rfl, hc⟩
          rw [List.concat_eq_append, obeys_append] at hsince
          refine Or.inr ⟨⟨before, c, since, rfl, hstart, hsince.1⟩, ?_⟩
          have hend := hsince.2.1
          rw [← run_append, List.append_assoc, ← List.singleton_inj.mp hc] at hend
          exact hend

/-- Calls that bring in buffers change the store alone, and only add to it. -/
theorem grows_after (m : Mount σ) {c : Call} (hc : c.bringsBuffers = true) :
    (m.after c).core = { m.core with store := (m.after c).store } ∧
      m.store.Grows (m.after c).store ∧ (m.store.Coherent → (m.after c).store.Coherent) := by
  cases c with
  | getOrCreate block =>
      have hstore : (m.getOrCreate block).2.store = (m.store.getOrCreate block).2 := by
        unfold getOrCreate
        simp only []
        split
        · rfl
        · rfl
      simp only [after, hstore]
      refine ⟨?_, Store.grows_insertNew _ _ _, fun h => Store.coherent_insertNew h _ _⟩
      unfold getOrCreate
      simp only []
      split
      · rfl
      · rfl
  | read device block contended =>
      have hstore : (m.readBuffer device block contended).2.store =
          (m.store.read device block
            (fun s => if contended then (s.getOrCreate block).2 else s)).2 := by
        unfold readBuffer
        simp only []
        split
        · rfl
        · rfl
      simp only [after, hstore]
      refine ⟨?_, ?_, fun h => ?_⟩
      · unfold readBuffer
        simp only []
        split
        · rfl
        · rfl
      · exact Store.read_cases m.store device block contended (.refl _)
          fun s data h => h.trans (Store.grows_insertNew s block data)
      · exact Store.read_cases m.store device block contended h
          fun s data h => Store.coherent_insertNew h block data
  | detach block size =>
      exact ⟨rfl, Store.grows_detached _ _ _, fun h => h.extends (Store.extends_detached _ _ _)⟩
  | evict => exact absurd hc (by simp only [Call.bringsBuffers, Bool.false_eq_true, not_false_eq_true])
  | revoke => exact absurd hc (by simp only [Call.bringsBuffers, Bool.false_eq_true, not_false_eq_true])
  | cancel => exact absurd hc (by simp only [Call.bringsBuffers, Bool.false_eq_true, not_false_eq_true])
  | commit => exact absurd hc (by simp only [Call.bringsBuffers, Bool.false_eq_true, not_false_eq_true])

-- Dropping a block from the cache changes the store alone.
theorem core_evict (m : Mount σ) (block : BlockNumber) :
    (m.after (.evict block)).core = { m.core with store := (m.store.evict block).2 } := by
  simp only [after, evict]
  rcases m.store.evict block with ⟨_ | id, store⟩
  · rfl
  · rfl

theorem store_evict (m : Mount σ) (block : BlockNumber) :
    (m.after (.evict block)).store = (m.store.evict block).2 :=
  congrArg (fun m => m.store) (m.core_evict block)

theorem table_evict (m : Mount σ) (block : BlockNumber) :
    (m.after (.evict block)).journal.table = m.journal.table :=
  congrArg (fun m => m.journal.table) (m.core_evict block)

theorem table_brings (m : Mount σ) {c : Call} (hc : c.bringsBuffers = true) :
    (m.after c).journal.table = m.journal.table :=
  congrArg (fun m => m.journal.table) (m.grows_after hc).1

/-- A revoke puts a record into the table. -/
def Records (m : Mount σ) (tid : Tid) (block : BlockNumber) (given : Option BufferId) : Prop :=
  (m.revoke tid block given).1 = .ok () ∧ ¬ m.SignalsTwice block given

/-- A call after which a block has a record: a revoke that puts it there. -/
def Enters (m : Mount σ) (b : BlockNumber) : Call → Prop
  | .revoke tid block given => block = b ∧ m.Records tid block given
  | .getOrCreate _ | .read .. | .evict _ | .detach .. | .cancel .. | .commit _ => False

/-- A call after which a block has no record: a commit, or a cancel of the block through
    a buffer that is not known to be clean. -/
def Leaves (m : Mount σ) (b : BlockNumber) : Call → Prop
  | .commit _ => True
  | .cancel _ id => (m.store.get id).block = b ∧ m.store.mark id ≠ .clean
  | .getOrCreate _ | .read .. | .evict _ | .detach .. | .revoke .. => False

theorem holds_after_revoke {m : Mount σ} (hm : m.journal.table.IsMap) (tid : Tid)
    (block : BlockNumber) (given : Option BufferId) (b : BlockNumber) :
    (m.revoke tid block given).2.journal.table.Holds b ↔
      (block = b ∧ m.Records tid block given) ∨ m.journal.table.Holds b := by
  have hcase := revoke_case hm tid block given
  unfold Records
  generalize (m.revoke tid block given).1 = result at hcase ⊢
  generalize (m.revoke tid block given).2 = after at hcase ⊢
  cases hcase with
  | refused stop _ pool htwice hbuild huse hlimit hcore =>
      have htable : after.journal.table = m.journal.table :=
        congrArg (fun m => m.journal.table) hcore
      rw [htable]
      simp only [reduceCtorEq, false_and, and_false, false_or]
  | skipped _ htwice hbuild hmarks =>
      have htable : after.journal.table = m.journal.table :=
        congrArg (fun m => m.journal.table) hmarks.core_eq
      rw [htable]
      simp only [htwice, not_true_eq_false, and_false, false_or]
  | recorded _ table pool counters hunmarked hfits htable hmarks hcore =>
      have htable' : after.journal.table = table := congrArg (fun m => m.journal.table) hcore
      have hnot := not_signalsTwice hunmarked
      rw [htable', htable.holds_iff]
      simp only [hnot, not_false_eq_true, and_self, and_true, eq_comm]

omit [LogService σ] in
theorem holds_after_cancel {m : Mount σ} (hm : m.journal.table.IsMap) (tid : Tid) (id : BufferId)
    (b : BlockNumber) :
    (m.cancel tid id).2.journal.table.Holds b ↔
      m.journal.table.Holds b ∧ ¬ ((m.store.get id).block = b ∧ m.store.mark id ≠ .clean) := by
  have hcase := cancel_case hm tid id
  generalize (m.cancel tid id).1 = result at hcase
  generalize (m.cancel tid id).2 = after at hcase ⊢
  cases hcase with
  | fast _ _ counters hclean hresult hmarks hcore =>
      have htable : after.journal.table = m.journal.table :=
        congrArg (fun m => m.journal.table) hcore
      rw [htable]
      exact ⟨fun hb => ⟨hb, fun hend => hend.2 hclean⟩, fun hb => hb.1⟩
  | searched _ table pool counters hneeded htable hmarks hcore =>
      have htable' : after.journal.table = table := congrArg (fun m => m.journal.table) hcore
      rw [htable', htable.holds_iff]
      exact ⟨fun hb => ⟨hb.2, fun hend => hb.1 hend.1.symm⟩,
        fun hb => ⟨fun heq => hb.2 ⟨heq.symm, hneeded⟩, hb.1⟩⟩

/-- Which blocks have a record after a call. -/
theorem holds_after {m : Mount σ} (hm : m.journal.table.IsMap) (c : Call) (b : BlockNumber) :
    (m.after c).journal.table.Holds b ↔
      m.Enters b c ∨ (m.journal.table.Holds b ∧ ¬ m.Leaves b c) := by
  have hsame : (m.after c).journal.table = m.journal.table → ((m.after c).journal.table.Holds b ↔
      False ∨ (m.journal.table.Holds b ∧ ¬ False)) := by
    intro htable
    rw [htable, false_or, not_false_eq_true, and_true]
  cases c with
  | getOrCreate block => exact hsame (m.table_brings rfl)
  | read device block contended => exact hsame (m.table_brings rfl)
  | detach block size => exact hsame (m.table_brings rfl)
  | evict block => exact hsame (m.table_evict block)
  | revoke tid block given =>
      simp only [after, holds_after_revoke hm, Enters, Leaves, not_false_eq_true, and_true]
  | cancel tid id => simp only [after, holds_after_cancel hm, Enters, Leaves, false_or]
  | commit tid =>
      simp only [after, table_commit, Table.not_holds_emptied, Enters, Leaves, not_true_eq_false,
        and_false, or_self]

/-- What calls keep whatever becomes of the pool. The settings are those the journal was
    mounted with. -/
structure Orderly (m : Mount σ) (config : Config) : Prop where
  -- The settings never change.
  config_eq : m.journal.config = config
  -- The table is a map.
  isMap : m.journal.table.IsMap
  -- Every record can be written.
  fits : ∀ b, m.journal.table.Holds b → config.recordWidth.fits b = true
  -- The limit is the one in the settings.
  limit_eq : m.pool.limit = config.recordLimit.map UInt64.toNat

variable {config : Config} {cache : BlockSize}

omit [LogService σ] in
/-- A mounted journal is orderly, and it has no record and no feature. -/
theorem orderly_create {build : Build} {store : Store} {log : σ} {m : Mount σ}
    (h : create build config store log = .ok m) :
    m.Orderly config ∧ m.journal.table.records = [] ∧ m.journal.features = 0 := by
  unfold create at h
  cases hjournal : Journal.create config with
  | error e => simp only [hjournal, reduceCtorEq] at h
  | ok journal =>
      simp only [hjournal, Except.ok.injEq] at h
      rcases Journal.create_eq_ok hjournal with ⟨hconfig, _, htable, hrecords⟩
      rw [← h]
      refine ⟨⟨hconfig, htable, fun b hb => ?_, rfl⟩, hrecords, Journal.features_create hjournal⟩
      rw [Table.holds_iff_mem htable] at hb
      change b ∈ journal.table.records.map Record.block at hb
      rw [hrecords] at hb
      exact absurd hb List.not_mem_nil

omit [LogService σ] in
-- What is orderly depends on the core alone, and there on the table and the pool.
theorem Orderly.update {m m' : Mount σ} (hm : m.Orderly config) {table : Table}
    {counters : Counters} {pool : Pool} {store : Store}
    (h : m'.core =
      { m.core with
        journal.table := table
        journal.counters := counters
        pool := pool
        store := store })
    (hmap : table.IsMap) (hfits : ∀ b, table.Holds b → config.recordWidth.fits b = true)
    (hlimit : pool.limit = m.pool.limit) : m'.Orderly config := by
  have htable : m'.journal.table = table := congrArg (fun m => m.journal.table) h
  have hpool : m'.pool = pool := congrArg (fun m => m.pool) h
  refine ⟨?_, ?_, ?_, ?_⟩
  · exact (congrArg (fun m => m.journal.config) h).trans hm.config_eq
  · rw [htable]
    exact hmap
  · rw [htable]
    exact hfits
  · rw [hpool, hlimit, hm.limit_eq]

theorem Orderly.after_revoke {m : Mount σ} (hm : m.Orderly config) (tid : Tid)
    (block : BlockNumber) (given : Option BufferId) :
    (m.revoke tid block given).2.Orderly config := by
  have hcase := revoke_case hm.isMap tid block given
  generalize (m.revoke tid block given).1 = result at hcase
  generalize (m.revoke tid block given).2 = after at hcase ⊢
  cases hcase with
  | refused stop _ pool htwice hbuild huse hlimit hcore =>
      exact hm.update hcore hm.isMap hm.fits hlimit
  | skipped _ htwice hbuild hmarks => exact hm.update hmarks.core_eq hm.isMap hm.fits rfl
  | recorded _ table pool counters hunmarked hfits htable hmarks hcore =>
      refine hm.update hcore htable.isMap (fun b hb => ?_) htable.limit_eq
      rw [htable.holds_iff] at hb
      rcases hb with rfl | hb
      · rw [← hm.config_eq]
        exact hfits
      · exact hm.fits b hb

omit [LogService σ] in
theorem Orderly.after_cancel {m : Mount σ} (hm : m.Orderly config) (tid : Tid) (id : BufferId) :
    (m.cancel tid id).2.Orderly config := by
  have hcase := cancel_case hm.isMap tid id
  generalize (m.cancel tid id).1 = result at hcase
  generalize (m.cancel tid id).2 = after at hcase ⊢
  cases hcase with
  | fast _ _ counters hclean hresult hmarks hcore => exact hm.update hcore hm.isMap hm.fits rfl
  | searched _ table pool counters hneeded htable hmarks hcore =>
      refine hm.update hcore htable.isMap (fun b hb => ?_) htable.limit_eq
      rw [htable.holds_iff] at hb
      exact hm.fits b hb.2

theorem Orderly.after {m : Mount σ} (hm : m.Orderly config) (c : Call) :
    (m.after c).Orderly config := by
  have hbrings : c.bringsBuffers = true → (m.after c).Orderly config :=
    fun hc => hm.update (m.grows_after hc).1 hm.isMap hm.fits rfl
  cases c with
  | getOrCreate block => exact hbrings rfl
  | read device block contended => exact hbrings rfl
  | detach block size => exact hbrings rfl
  | evict block => exact hm.update (m.core_evict block) hm.isMap hm.fits rfl
  | revoke tid block given => exact hm.after_revoke tid block given
  | cancel tid id => exact hm.after_cancel tid id
  | commit tid =>
      rcases m.commit_core tid with ⟨store, counters, hext, hcore⟩
      refine hm.update hcore (Table.isMap_emptied hm.isMap.toWellFormed) (fun b hb => ?_) ?_
      · exact absurd hb (Table.not_holds_emptied _ b)
      · exact Pool.limit_release _ _

/-- What calls keep of the cache. -/
structure Housed (m : Mount σ) (size cache : BlockSize) : Prop where
  -- The size of a block never changes.
  blockSize_eq : m.journal.blockSize = size
  -- The size of the buffers of the cache never changes.
  cache_eq : m.store.blockSize = cache
  -- The index of the cache leads where it says.
  coherent : m.store.Coherent

variable {size : BlockSize}

omit [LogService σ] in
-- It depends on the core alone, and there on the store.
theorem Housed.update {m m' : Mount σ} (hm : m.Housed size cache) {table : Table}
    {counters : Counters} {pool : Pool} {store : Store}
    (h : m'.core =
      { m.core with
        journal.table := table
        journal.counters := counters
        pool := pool
        store := store })
    (hcache : store.blockSize = m.store.blockSize) (hcoherent : store.Coherent) :
    m'.Housed size cache := by
  have hstore : m'.store = store := congrArg (fun m => m.store) h
  refine ⟨(congrArg (fun m => m.journal.blockSize) h).trans hm.blockSize_eq, ?_, ?_⟩
  · rw [hstore, hcache, hm.cache_eq]
  · rw [hstore]
    exact hcoherent

theorem Housed.after_revoke {m : Mount σ} (hm : m.Housed size cache)
    (hmap : m.journal.table.IsMap) (tid : Tid) (block : BlockNumber) (given : Option BufferId) :
    (m.revoke tid block given).2.Housed size cache := by
  have hcase := revoke_case hmap tid block given
  generalize (m.revoke tid block given).1 = result at hcase
  generalize (m.revoke tid block given).2 = after at hcase ⊢
  cases hcase with
  | refused stop _ pool htwice hbuild huse hlimit hcore => exact hm.update hcore rfl hm.coherent
  | skipped _ htwice hbuild hmarks =>
      exact hm.update hmarks.core_eq hmarks.store.blockSize_eq (hm.coherent.remarked hmarks.store)
  | recorded _ table pool counters hunmarked hfits htable hmarks hcore =>
      exact hm.update hcore hmarks.blockSize_eq (hm.coherent.remarked hmarks)

omit [LogService σ] in
theorem Housed.after_cancel {m : Mount σ} (hm : m.Housed size cache)
    (hmap : m.journal.table.IsMap) (tid : Tid) (id : BufferId) :
    (m.cancel tid id).2.Housed size cache := by
  have hcase := cancel_case hmap tid id
  generalize (m.cancel tid id).1 = result at hcase
  generalize (m.cancel tid id).2 = after at hcase ⊢
  cases hcase with
  | fast _ _ counters hclean hresult hmarks hcore =>
      exact hm.update hcore hmarks.blockSize_eq (hm.coherent.remarked hmarks)
  | searched _ table pool counters hneeded htable hmarks hcore =>
      exact hm.update hcore hmarks.blockSize_eq (hm.coherent.remarked hmarks)

/-- Every call keeps the cache in order. -/
theorem Housed.after {m : Mount σ} (hm : m.Housed size cache) (hmap : m.journal.table.IsMap)
    (c : Call) : (m.after c).Housed size cache := by
  have hbrings : c.bringsBuffers = true → (m.after c).Housed size cache := by
    intro hc
    rcases m.grows_after hc with ⟨hcore, hgrows, hcoherent⟩
    exact hm.update hcore hgrows.blockSize_eq (hcoherent hm.coherent)
  cases c with
  | getOrCreate block => exact hbrings rfl
  | read device block contended => exact hbrings rfl
  | detach block size => exact hbrings rfl
  | evict block =>
      exact hm.update (m.core_evict block) (Store.blockSize_evict _ _)
        (Store.coherent_evict hm.coherent block)
  | revoke tid block given => exact hm.after_revoke hmap tid block given
  | cancel tid id => exact hm.after_cancel hmap tid id
  | commit tid =>
      rcases m.commit_core tid with ⟨store, counters, hext, hcore⟩
      exact hm.update hcore hext.blockSize_eq (hm.coherent.extends hext)

/-- What every call keeps. The settings are those the journal was mounted with, and
    the buffers of the cache have the size they always had. -/
structure Sound (m : Mount σ) (config : Config) (cache : BlockSize) : Prop where
  -- The settings never change.
  config_eq : m.journal.config = config
  -- The size of a block is the one in the settings.
  bytes_eq : m.journal.blockSize.bytes = config.blockSize.toNat
  -- The size of the buffers of the cache never changes.
  cache_eq : m.store.blockSize = cache
  -- The table is a map.
  isMap : m.journal.table.IsMap
  -- Every record can be written.
  fits : ∀ b, m.journal.table.Holds b → config.recordWidth.fits b = true
  -- The pool has in use what the table holds.
  paid : m.pool.inUse = m.journal.table.len
  -- The limit is the one in the settings.
  limit_eq : m.pool.limit = config.recordLimit.map UInt64.toNat
  -- The index of the cache leads where it says.
  coherent : m.store.Coherent

omit [LogService σ] in
/-- A mounted journal is sound, and its table is empty. -/
theorem sound_create {build : Build} {n : Nat} {store : Store} {log : σ} {m : Mount σ}
    (hstore : Store.create n = .ok store) (hcreate : create build config store log = .ok m) :
    m.Sound config store.blockSize ∧ m.journal.table.records = [] ∧ m.store = store ∧
      store.blockSize.bytes = n ∧ store.index = [] ∧ m.build = build ∧ m.log = log := by
  rcases Store.coherent_create hstore with ⟨hcoherent, hindex, hsize⟩
  have horderly := (orderly_create hcreate).1
  unfold create at hcreate
  cases hjournal : Journal.create config with
  | error e => simp only [hjournal, reduceCtorEq] at hcreate
  | ok journal =>
      simp only [hjournal, Except.ok.injEq] at hcreate
      rcases Journal.create_eq_ok hjournal with ⟨hconfig, hbytes, htable, hrecords⟩
      have hlen : journal.table.len = 0 := by
        rw [htable.len_eq, hrecords]
        rfl
      rw [← hcreate] at horderly ⊢
      exact ⟨⟨hconfig, hbytes, rfl, htable, horderly.fits, hlen.symm, rfl, hcoherent⟩, hrecords,
        rfl, hsize, hindex, rfl, rfl⟩

omit [LogService σ] in
-- A cache whose buffers were made for the journal has blocks of the same size.
theorem Sound.blockSize_eq {m : Mount σ} (hm : m.Sound config cache)
    (hcache : cache.bytes = config.blockSize.toNat) :
    m.store.blockSize = m.journal.blockSize := by
  rw [hm.cache_eq]
  rcases hj : m.journal.blockSize with ⟨bytes, valid⟩
  rcases cache with ⟨bytes', valid'⟩
  have hbytes := hm.bytes_eq
  rw [hj] at hbytes
  simp only [] at hbytes hcache
  simp only [hbytes, hcache]

omit [LogService σ] in
theorem Sound.orderly {m : Mount σ} (hm : m.Sound config cache) : m.Orderly config :=
  ⟨hm.config_eq, hm.isMap, hm.fits, hm.limit_eq⟩

omit [LogService σ] in
theorem Sound.housed {m : Mount σ} (hm : m.Sound config cache) :
    m.Housed m.journal.blockSize cache :=
  ⟨rfl, hm.cache_eq, hm.coherent⟩

omit [LogService σ] in
-- What else is sound depends on the core as well, and there on the table and the pool.
theorem Sound.update {m m' : Mount σ} (hm : m.Sound config cache) (horderly : m'.Orderly config)
    (hhoused : m'.Housed m.journal.blockSize cache) {table : Table} {counters : Counters}
    {pool : Pool} {store : Store}
    (h : m'.core =
      { m.core with
        journal.table := table
        journal.counters := counters
        pool := pool
        store := store })
    (hpaid : pool.inUse = table.len) : m'.Sound config cache := by
  have htable : m'.journal.table = table := congrArg (fun m => m.journal.table) h
  have hpool : m'.pool = pool := congrArg (fun m => m.pool) h
  refine ⟨horderly.config_eq, ?_, hhoused.cache_eq, horderly.isMap, horderly.fits, ?_,
    horderly.limit_eq, hhoused.coherent⟩
  · rw [hhoused.blockSize_eq]
    exact hm.bytes_eq
  · rw [hpool, htable, hpaid]

theorem Sound.after_revoke {m : Mount σ} (hm : m.Sound config cache) (tid : Tid)
    (block : BlockNumber) (given : Option BufferId) :
    (m.after (.revoke tid block given)).Sound config cache := by
  have horderly := hm.orderly.after_revoke tid block given
  have hhoused := hm.housed.after_revoke hm.isMap tid block given
  change (m.revoke tid block given).2.Sound config cache
  generalize hresult : (m.revoke tid block given).1 = result
  generalize hafter : (m.revoke tid block given).2 = after at horderly hhoused ⊢
  have hcase := revoke_case hm.isMap tid block given
  rw [hresult, hafter] at hcase
  cases hcase with
  | refused stop _ pool htwice hbuild huse hlimit hcore =>
      exact hm.update horderly hhoused hcore (huse.trans hm.paid)
  | skipped _ htwice hbuild hmarks => exact hm.update horderly hhoused hmarks.core_eq hm.paid
  | recorded _ table pool counters hunmarked hfits htable hmarks hcore =>
      refine hm.update horderly hhoused hcore ?_
      have hpaid := htable.paid
      have hbefore := hm.paid
      omega

omit [LogService σ] in
theorem Sound.after_cancel {m : Mount σ} (hm : m.Sound config cache) (tid : Tid)
    (id : BufferId) : (m.cancel tid id).2.Sound config cache := by
  have horderly := hm.orderly.after_cancel tid id
  have hhoused := hm.housed.after_cancel hm.isMap tid id
  generalize hresult : (m.cancel tid id).1 = result
  generalize hafter : (m.cancel tid id).2 = after at horderly hhoused ⊢
  have hcase := cancel_case hm.isMap tid id
  rw [hresult, hafter] at hcase
  cases hcase with
  | fast _ _ counters hclean hresult hmarks hcore => exact hm.update horderly hhoused hcore hm.paid
  | searched _ table pool counters hneeded htable hmarks hcore =>
      refine hm.update horderly hhoused hcore ?_
      have hpaid := htable.paid (Nat.le_of_eq hm.paid.symm)
      have hbefore := hm.paid
      omega

theorem Sound.after_commit {m : Mount σ} (hm : m.Sound config cache) (tid : Tid) :
    (m.after (.commit tid)).Sound config cache := by
  rcases m.commit_core tid with ⟨store, counters, hext, hcore⟩
  refine hm.update (hm.orderly.after (.commit tid)) (hm.housed.after hm.isMap (.commit tid)) hcore ?_
  -- Everything in use was for the records that are gone.
  have hpaid := hm.paid
  have hempty : m.journal.table.emptied.len = 0 := rfl
  rw [hempty, Pool.release, if_pos (Nat.le_of_eq hpaid.symm)]
  simp only [hpaid, Nat.sub_self]

/-- Every call keeps a mount sound. -/
theorem Sound.after {m : Mount σ} (hm : m.Sound config cache) (c : Call) :
    (m.after c).Sound config cache := by
  have horderly := hm.orderly.after c
  have hhoused := hm.housed.after hm.isMap c
  have hbrings : c.bringsBuffers = true → (m.after c).Sound config cache :=
    fun hc => hm.update horderly hhoused (m.grows_after hc).1 hm.paid
  cases c with
  | getOrCreate block => exact hbrings rfl
  | read device block contended => exact hbrings rfl
  | detach block size => exact hbrings rfl
  | evict block => exact hm.update horderly hhoused (m.core_evict block) hm.paid
  | revoke tid block given => exact hm.after_revoke tid block given
  | cancel tid id => exact hm.after_cancel tid id
  | commit tid => exact hm.after_commit tid

/-- Every run keeps a mount sound. -/
theorem Sound.run {m : Mount σ} (hm : m.Sound config cache) (calls : List Call) :
    (m.run calls).Sound config cache := by
  induction calls generalizing m with
  | nil => exact hm
  | cons c calls ih => exact ih (hm.after c)

end Mount

/-- The settings of a small journal that can hold one record. -/
def smallConfig : Config :=
  { blockSize := 1024, revokeHashSize := 1, recoveryHashSize := 1, retry := .fail,
    recordLimit := some 1 }

/-- An empty cache for a small journal. -/
def smallStore : Store := ⟨⟨1024, by decide⟩, [], #[]⟩

/-- A log with one block for a small journal. -/
def smallLog : RingLog := ⟨⟨1024, #[Bytes.zeros 1024], 0, false⟩, 0, 1, 0, 1, [], [], []⟩

/-- A small journal that was just mounted. -/
def smallMount (build : Build) : Mount RingLog :=
  { build := build
    journal := ⟨smallConfig, ⟨1024, by decide⟩, 0, false, ⟨0, #[[]], 0⟩, {}⟩
    pool := Pool.new (some 1)
    store := smallStore
    log := smallLog
    trace := #[.tableCreated 1 1024 .narrow] }

theorem create_smallMount (build : Build) :
    Mount.create build smallConfig smallStore smallLog = .ok (smallMount build) := rfl

theorem create_smallStore : Store.create smallConfig.blockSize.toNat = .ok smallStore := rfl

end BlockJournal
