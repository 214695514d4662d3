import BlockJournal.Proofs.Mount.Exchange
import BlockJournal.Proofs.Mount.Log

/-!
# Everything that Happens to a Journal

Calls are not all that happens to a mounted journal. Feature bits are added to its
superblock, it is aborted, and whoever shares its pool takes records and gives them
back.

A run of acts takes all of it together, in any order. What such a run keeps is less
than what a run of calls keeps: the pool has more in use than the table holds, or less
if somebody gave back too much. `Mount.Orderly` is what is left.

The features are followed by one equation for every act. Each act asks for some bits,
most of them for none, and they are added where the format has a place for them.

## Main definitions

* `Act`: What can happen.
* `Mount.act`, `Mount.runActs`: A mount after an act, and after some acts.
* `Act.features`: The feature bits that an act asks for.

## Theorems

* `act_exchange`, `runActs_exchange`: The same over another log that answers alike.
* `features_act`: The features after an act.
* `Orderly.act`, `Orderly.runActs`: Every run is orderly.
* `Housed.act`, `Housed.runActs`: Every run keeps the cache in order.
* `Orderly.features_runActs`: The first format never has other features.
-/

namespace BlockJournal

/-- What can happen to a mounted journal. -/
inductive Act where
  -- A call.
  | call (c : Call)
  -- Feature bits are added to the superblock.
  | addFeatures (bits : UInt32)
  -- The journal gives up writing to its log.
  | abort
  -- Somebody who shares the pool takes a record, or is refused one.
  | charge
  -- Somebody who shares the pool gives back records.
  | release (count : Nat)
  deriving DecidableEq, Repr

/-- The feature bits that an act asks for. -/
def Act.features (config : Config) : Act → UInt32
  | .call (.revoke ..) => config.neededFeatures
  | .addFeatures bits => bits
  | .call (.getOrCreate _) | .call (.read ..) | .call (.evict _) | .call (.detach ..) => 0
  | .call (.cancel ..) | .call (.commit _) | .abort | .charge | .release _ => 0

namespace Pool

-- The limit of a pool never changes.
theorem limit_charge (p : Pool) : p.charge.2.limit = p.limit := by
  unfold charge
  split
  · rfl
  · rfl

end Pool

-- There are features that revokes need.
theorem Config.neededFeatures_ne_zero (config : Config) : config.neededFeatures ≠ 0 := by
  unfold neededFeatures
  cases config.recordWidth with
  | narrow => decide
  | wide => decide

namespace Surroundings

variable {σ : Type}

-- The features after bits were added.
theorem features_featured (s : Surroundings σ) (bits : UInt32) :
    (s.featured bits).features =
      match s.config.format with
      | .v1 => s.features
      | .v2 => s.features ||| bits := by
  unfold featured
  cases s.config.format with
  | v1 => rfl
  | v2 => rfl

-- Asking for no bits changes nothing.
theorem features_featured_zero (s : Surroundings σ) : (s.featured 0).features = s.features := by
  rw [features_featured]
  split
  · rfl
  · exact UInt32.or_zero

theorem Forgotten.features_eq [LogService σ] {s s' : Surroundings σ} (h : s.Forgotten s') :
    s'.features = s.features := by
  rcases h with rfl | ⟨tid, b, rfl⟩
  · rfl
  · rfl

end Surroundings

namespace Draft

variable {σ : Type} [LogService σ] {tid : Tid} {width : RecordWidth}

/-- No step of a commit adds features. -/
theorem Step.features_eq {d d' : Draft σ} {rs : List Record} (h : Step tid width d rs d') :
    d'.mount.journal.features = d.mount.journal.features := by
  have hrequest : ∀ id m, d.mount.request = (id, m) →
      m.journal.features = d.mount.journal.features := by
    intro id m hrequest
    have hreply := congrArg Surroundings.features d.mount.surroundings_request
    rw [hrequest] at hreply
    exact hreply
  cases h with
  | count => rfl
  | drop r _ => rfl
  | refused m e hcur hm => exact hrequest _ m hm
  | unopened id m data cause e hcur hm hopen => exact hrequest _ m hm
  | opened id m m' data hcur hm hopen hfile =>
      rw [← hfile, ← hrequest _ m hm]
      exact congrArg Surroundings.features
        ((m.modifyBuffer id (·.setData data)).surroundings_file tid id)
  | unfit desc r cause e hcur hroom hadd => rfl
  | added desc desc' r hcur hroom hadd => rfl
  | lost desc e hcur habort => rfl
  | unclosed desc data cause e hcur habort hclose => rfl
  | submitted desc data e hcur habort hclose =>
      exact congrArg Surroundings.features (Mount.surroundings_submit _ desc.buffer)

theorem Steps.features_eq {d d' : Draft σ} {rs : List Record} (h : Steps tid width d rs d') :
    d'.mount.journal.features = d.mount.journal.features := by
  induction h with
  | refl => rfl
  | snoc _ hstep ih => exact hstep.features_eq.trans ih

end Draft

namespace Mount

variable {σ : Type} [LogService σ]

/-- A mount after something happened. -/
def act (m : Mount σ) : Act → Mount σ
  | .call c => m.after c
  | .addFeatures bits => (m.addFeatures bits).2
  | .abort => m.abort
  | .charge => { m with pool := m.pool.charge.2 }
  | .release count => { m with pool := m.pool.release count }

/-- A mount after some things happened. -/
def runActs (m : Mount σ) (acts : List Act) : Mount σ := acts.foldl act m

@[simp] theorem runActs_nil (m : Mount σ) : m.runActs [] = m := rfl

@[simp] theorem runActs_cons (m : Mount σ) (a : Act) (acts : List Act) :
    m.runActs (a :: acts) = (m.act a).runActs acts := rfl

theorem runActs_append (m : Mount σ) (acts acts' : List Act) :
    m.runActs (acts ++ acts') = (m.runActs acts).runActs acts' :=
  List.foldl_append

theorem act_exchange {τ : Type} [LogService τ] {φ : σ → τ} (hφ : LogService.Alike φ) (m : Mount σ)
    (a : Act) : (m.exchange φ).act a = (m.act a).exchange φ := by
  cases a with
  | call c => exact after_exchange hφ m c
  | addFeatures bits => exact congrArg Prod.snd (addFeatures_exchange φ m bits)
  | abort => exact abort_exchange φ m
  | charge => rfl
  | release count => rfl

/-- A run of acts is the same over another log that answers alike. -/
theorem runActs_exchange {τ : Type} [LogService τ] {φ : σ → τ} (hφ : LogService.Alike φ)
    (m : Mount σ) (acts : List Act) : (m.exchange φ).runActs acts = (m.runActs acts).exchange φ := by
  induction acts generalizing m with
  | nil => rfl
  | cons a acts ih => rw [runActs_cons, runActs_cons, act_exchange hφ, ih]

theorem features_commit (m : Mount σ) (tid : Tid) :
    (m.commit tid).2.journal.features = m.journal.features := by
  rcases Draft.steps_commit m tid with ⟨d, e, hsteps, _, heq⟩
  rw [heq]
  exact hsteps.features_eq

/-- An act adds the feature bits it asks for, where the format has any. -/
theorem features_act (m : Mount σ) (a : Act) :
    (m.act a).journal.features =
      (m.surroundings.featured (a.features m.journal.config)).features := by
  -- Most acts ask for nothing.
  have hnone : ∀ {m' : Mount σ}, m'.journal.features = m.journal.features →
      m'.journal.features = (m.surroundings.featured 0).features := by
    intro m' h
    rw [Surroundings.features_featured_zero]
    exact h
  have hquiet : ∀ {c : Call}, (∀ tid block given, c ≠ .revoke tid block given) →
      (∀ tid, c ≠ .commit tid) →
      (m.after c).journal.features = (m.surroundings.featured 0).features :=
    fun hrevoke hcommit => hnone (congrArg Surroundings.features
      (m.surroundings_after hrevoke hcommit))
  cases a with
  | call c =>
      cases c with
      | revoke tid block given =>
          exact (m.surroundings_revoke tid block given).1.features_eq
      | commit tid => exact hnone (m.features_commit tid)
      | getOrCreate block =>
          exact hquiet (by simp only [ne_eq, reduceCtorEq, not_false_eq_true, implies_true])
            (by simp only [ne_eq, reduceCtorEq, not_false_eq_true, implies_true])
      | read device block contended =>
          exact hquiet (by simp only [ne_eq, reduceCtorEq, not_false_eq_true, implies_true])
            (by simp only [ne_eq, reduceCtorEq, not_false_eq_true, implies_true])
      | evict block =>
          exact hquiet (by simp only [ne_eq, reduceCtorEq, not_false_eq_true, implies_true])
            (by simp only [ne_eq, reduceCtorEq, not_false_eq_true, implies_true])
      | detach block size =>
          exact hquiet (by simp only [ne_eq, reduceCtorEq, not_false_eq_true, implies_true])
            (by simp only [ne_eq, reduceCtorEq, not_false_eq_true, implies_true])
      | cancel tid id =>
          exact hquiet (by simp only [ne_eq, reduceCtorEq, not_false_eq_true, implies_true])
            (by simp only [ne_eq, reduceCtorEq, not_false_eq_true, implies_true])
  | addFeatures bits =>
      exact congrArg Surroundings.features (m.surroundings_addFeatures bits)
  | abort => exact hnone (congrArg Surroundings.features m.surroundings_abort)
  | charge => exact hnone rfl
  | release count => exact hnone rfl

variable {config : Config}

omit [LogService σ] in
theorem Orderly.of_core {m m' : Mount σ} (hm : m.Orderly config) (h : m'.core = m.core) :
    m'.Orderly config :=
  hm.update h hm.isMap hm.fits rfl

/-- Every act keeps a mount orderly. -/
theorem Orderly.act {m : Mount σ} (hm : m.Orderly config) (a : Act) :
    (m.act a).Orderly config := by
  cases a with
  | call c => exact hm.after c
  | addFeatures bits => exact hm.of_core (core_addFeatures m bits)
  | abort => exact hm.of_core (core_abort m)
  | charge => exact ⟨hm.config_eq, hm.isMap, hm.fits, (Pool.limit_charge _).trans hm.limit_eq⟩
  | release count =>
      exact ⟨hm.config_eq, hm.isMap, hm.fits, (Pool.limit_release _ _).trans hm.limit_eq⟩

/-- Every run keeps a mount orderly. -/
theorem Orderly.runActs {m : Mount σ} (hm : m.Orderly config) (acts : List Act) :
    (m.runActs acts).Orderly config := by
  induction acts generalizing m with
  | nil => exact hm
  | cons a acts ih => exact ih (hm.act a)

omit [LogService σ] in
theorem Housed.of_core {m m' : Mount σ} {size cache : BlockSize} (hm : m.Housed size cache)
    (h : m'.core = m.core) : m'.Housed size cache :=
  hm.update h rfl hm.coherent

/-- Every act keeps the cache in order. -/
theorem Housed.act {m : Mount σ} {size cache : BlockSize} (hm : m.Housed size cache)
    (hmap : m.journal.table.IsMap) (a : Act) : (m.act a).Housed size cache := by
  cases a with
  | call c => exact hm.after hmap c
  | addFeatures bits => exact hm.of_core (core_addFeatures m bits)
  | abort => exact hm.of_core (core_abort m)
  | charge => exact ⟨hm.blockSize_eq, hm.cache_eq, hm.coherent⟩
  | release count => exact ⟨hm.blockSize_eq, hm.cache_eq, hm.coherent⟩

theorem Housed.runActs {m : Mount σ} {size cache : BlockSize} (hm : m.Housed size cache)
    (horderly : m.Orderly config) (acts : List Act) : (m.runActs acts).Housed size cache := by
  induction acts generalizing m with
  | nil => exact hm
  | cons a acts ih => exact ih (hm.act horderly.isMap a) (horderly.act a)

/-- The first format has no place for features, so none are added along a run. -/
theorem Orderly.features_runActs {m : Mount σ} (hm : m.Orderly config)
    (hformat : config.format = .v1) (acts : List Act) :
    (m.runActs acts).journal.features = m.journal.features := by
  induction acts generalizing m with
  | nil => rfl
  | cons a acts ih =>
      have hsettings : m.surroundings.config.format = .v1 := by
        rw [← hformat, ← hm.config_eq]
        rfl
      rw [runActs_cons, ih (hm.act a), features_act, Surroundings.features_featured, hsettings]
      rfl

end Mount

end BlockJournal
