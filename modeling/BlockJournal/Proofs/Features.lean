import BlockJournal.Proofs.Acts
import BlockJournal.Proofs.Commit.Contents

/-!
# Advertised Features

No revoke data without a feature that announces it.

A reader of the journal that does not know about revokes must not take a log with
revoke descriptors for one it understands, so the superblock says that there are some
before there can be any. A revoke adds the bits before it does anything else, and
nothing takes bits away. On a format without feature fields the bits cannot be added
and the revoke goes no further, so there is never a record, and a commit that has no
record to write has nothing to ask of its log.

What a log was told to write is known from its witness, which keeps the buffers.

## Main definitions

* `Mount.Advertises`: The superblock has feature bits.
* `Mount.Announced`: What has to do with revokes was announced.

## Theorems

* `Advertises.act`, `Advertises.runActs`: Bits stay.
* `advertises_of_revoke`: A revoke that succeeds has announced itself.
* `Announced.act`, `Announced.runActs`: Everything is announced along a run.
* `revokes_announced`: So it is from the mount on.
-/

namespace BlockJournal

-- Bits that were added are there, and so are those that were there before.
theorem or_and_right_self {a b : UInt32} : (a ||| b) &&& b = b := by
  refine and_eq_right_iff.mpr fun i hi hb => ?_
  rw [UInt32.toBitVec_or, BitVec.getElem_or, hb, Bool.or_true]

theorem or_and_of_and_eq {a b bits : UInt32} (h : a &&& bits = bits) :
    (a ||| b) &&& bits = bits := by
  refine and_eq_right_iff.mpr fun i hi hb => ?_
  rw [UInt32.toBitVec_or, BitVec.getElem_or, and_eq_right_iff.mp h i hi hb, Bool.true_or]

-- A word that has the bits of two has the bits of each.
theorem and_eq_of_and_or_eq {a b c : UInt32} (h : a &&& (b ||| c) = b ||| c) :
    a &&& b = b ∧ a &&& c = c := by
  refine ⟨and_eq_right_iff.mpr fun i hi hb => and_eq_right_iff.mp h i hi ?_,
    and_eq_right_iff.mpr fun i hi hb => and_eq_right_iff.mp h i hi ?_⟩
  · rw [UInt32.toBitVec_or, BitVec.getElem_or, hb, Bool.true_or]
  · rw [UInt32.toBitVec_or, BitVec.getElem_or, hb, Bool.or_true]

-- Tables without records hold no block.
theorem Table.IsMap.records_ne_nil_iff {t : Table} (hm : t.IsMap) :
    t.records ≠ [] ↔ ∃ b, t.Holds b := by
  constructor
  · intro h
    rcases List.exists_mem_of_ne_nil _ h with ⟨r, hr⟩
    exact ⟨r.block, (holds_iff_mem hm).mpr (List.mem_map_of_mem hr)⟩
  · rintro ⟨b, hb⟩ hnil
    rw [holds_iff_mem hm, hnil] at hb
    exact absurd hb List.not_mem_nil

namespace Mount

variable {σ : Type}

/-- The superblock has all of these feature bits. -/
def Advertises (m : Mount σ) (bits : UInt32) : Prop := m.journal.features &&& bits = bits

instance (m : Mount σ) (bits : UInt32) : Decidable (m.Advertises bits) :=
  inferInstanceAs (Decidable (m.journal.features &&& bits = bits))

-- What revokes need announces them, and the width of their blocks.
theorem Advertises.needed {m : Mount σ} {config : Config}
    (h : m.Advertises config.neededFeatures) :
    m.Advertises Feature.revoke.bit ∧
      (config.recordWidth = .wide → m.Advertises Feature.wideBlocks.bit) := by
  unfold Config.neededFeatures at h
  cases hwidth : config.recordWidth with
  | narrow =>
      rw [hwidth] at h
      exact ⟨h, fun hwide => absurd hwide (by simp only [reduceCtorEq, not_false_eq_true])⟩
  | wide =>
      rw [hwidth] at h
      rcases and_eq_of_and_or_eq h with ⟨hrevoke, hwide⟩
      exact ⟨hrevoke, fun _ => hwide⟩

/-- Adding feature bits that are there afterwards, if it succeeds. -/
theorem advertises_of_addFeatures {m : Mount σ} {bits : UInt32}
    (h : (m.addFeatures bits).1 = .ok ()) : (m.addFeatures bits).2.Advertises bits := by
  unfold addFeatures at h ⊢
  by_cases hthere : m.journal.features &&& bits = bits
  · rw [if_pos hthere]
    exact hthere
  · rw [if_neg hthere] at h ⊢
    cases hformat : m.journal.config.format with
    | v1 => simp only [hformat, reduceCtorEq] at h
    | v2 => exact or_and_right_self

variable [LogService σ]

/-- Nothing takes feature bits away. -/
theorem Advertises.act {m : Mount σ} {bits : UInt32} (h : m.Advertises bits) (a : Act) :
    (m.act a).Advertises bits := by
  rw [Advertises, features_act, Surroundings.features_featured]
  split
  · exact h
  · exact or_and_of_and_eq h

theorem Advertises.runActs {m : Mount σ} {bits : UInt32} (h : m.Advertises bits)
    (acts : List Act) : (m.runActs acts).Advertises bits := by
  induction acts generalizing m with
  | nil => exact h
  | cons a acts ih => exact ih (h.act a)

/-- A revoke that succeeds has announced itself. -/
theorem advertises_of_revoke {m : Mount σ} {tid : Tid} {block : BlockNumber}
    {given : Option BufferId} (h : (m.revoke tid block given).1 = .ok ()) :
    (m.revoke tid block given).2.Advertises m.journal.config.neededFeatures := by
  have hadded : (m.addFeatures m.journal.config.neededFeatures).1 = .ok () := by
    unfold revoke at h
    rcases hadd : m.addFeatures m.journal.config.neededFeatures with ⟨e | ⟨⟩, m'⟩
    · simp only [hadd, reduceCtorEq] at h
    · rfl
  have hfeatures : (m.revoke tid block given).2.journal.features =
      (m.addFeatures m.journal.config.neededFeatures).2.journal.features :=
    (m.surroundings_revoke tid block given).1.features_eq.trans
      (congrArg Surroundings.features (m.surroundings_addFeatures _)).symm
  rw [Advertises, hfeatures]
  exact advertises_of_addFeatures hadded

-- A commit without records has nothing to ask of the log.
theorem log_commit_of_records_eq_nil {m : Mount σ} (h : m.journal.table.records = []) (tid : Tid) :
    (m.commit tid).2.log = m.log := by
  have hdrained : m.drainTable.1 = [] := h
  simp only [commit, hdrained, List.foldl_nil, Draft.closeCurrent]
  rfl

/-- What has to do with revokes was announced: there is no record and no descriptor
    without the features for it. -/
structure Announced (m : Mount (Witnessed σ)) (config : Config) : Prop where
  -- What every act keeps.
  orderly : m.Orderly config
  -- Records and descriptors have their features.
  announced : (m.journal.table.records ≠ [] ∨ m.log.submitted ≠ []) →
    m.Advertises config.neededFeatures

variable {config : Config}

-- Records and descriptors come about through revokes that succeed.
theorem quiet_act {m : Mount (Witnessed σ)} (hm : m.Orderly config)
    (hrecords : m.journal.table.records = []) (hsubmitted : m.log.submitted = []) {a : Act}
    (ha : ∀ tid block given, a = .call (.revoke tid block given) →
      (m.revoke tid block given).1 ≠ .ok ()) :
    (m.act a).journal.table.records = [] ∧ (m.act a).log.submitted = [] := by
  have hnone : ∀ b, ¬ m.journal.table.Holds b := by
    intro b hb
    exact hm.isMap.records_ne_nil_iff.mpr ⟨b, hb⟩ hrecords
  -- What stays inside the core brings in neither.
  have hsame : ∀ {m' : Mount (Witnessed σ)}, m'.core = m.core → m'.log = m.log →
      m'.journal.table.records = [] ∧ m'.log.submitted = [] := by
    intro m' hcore hlog
    have htable : m'.journal.table = m.journal.table := congrArg (fun m => m.journal.table) hcore
    rw [htable, hlog]
    exact ⟨hrecords, hsubmitted⟩
  cases a with
  | call c =>
      refine ⟨?_, ?_⟩
      · by_contra hne
        rcases (hm.after c).isMap.records_ne_nil_iff.mp hne with ⟨b, hb⟩
        rcases (holds_after hm.isMap c b).mp hb with henters | hheld
        · cases c with
          | revoke tid block given => exact ha tid block given rfl henters.2.1
          | getOrCreate | read | evict | detach | cancel | commit => exact henters
        · exact hnone b hheld.1
      · by_cases hc : ∃ tid, c = .commit tid
        · rcases hc with ⟨tid, rfl⟩
          have hlog := log_commit_of_records_eq_nil hrecords tid
          exact (congrArg Witnessed.submitted hlog).trans hsubmitted
        · exact (submitted_after m fun tid h => hc ⟨tid, h⟩).trans hsubmitted
  | addFeatures bits =>
      refine hsame (core_addFeatures m bits) ?_
      exact (log_of_surroundings (m.surroundings_addFeatures bits)).trans
        (m.surroundings.log_featured bits)
  | abort => exact hsame m.core_abort m.log_abort
  | charge => exact ⟨hrecords, hsubmitted⟩
  | release count => exact ⟨hrecords, hsubmitted⟩

/-- Every act announces what it brings in. -/
theorem Announced.act {m : Mount (Witnessed σ)} (hm : m.Announced config) (a : Act) :
    (m.act a).Announced config := by
  refine ⟨hm.orderly.act a, fun hafter => ?_⟩
  by_cases hbefore : m.journal.table.records ≠ [] ∨ m.log.submitted ≠ []
  · exact (hm.announced hbefore).act a
  · rw [not_or, not_not, not_not] at hbefore
    by_cases ha : ∃ tid block given, a = .call (.revoke tid block given) ∧
        (m.revoke tid block given).1 = .ok ()
    · rcases ha with ⟨tid, block, given, rfl, hok⟩
      rw [← hm.orderly.config_eq]
      exact advertises_of_revoke hok
    · -- Nothing was brought in.
      rcases quiet_act hm.orderly hbefore.1 hbefore.2
        (fun tid block given heq hok => ha ⟨tid, block, given, heq, hok⟩) with
        ⟨hrecords, hsubmitted⟩
      exact absurd hafter (by
        simp only [hrecords, hsubmitted, ne_eq, not_true_eq_false, or_self, not_false_eq_true])

/-- Everything is announced along a run. -/
theorem Announced.runActs {m : Mount (Witnessed σ)} (hm : m.Announced config) (acts : List Act) :
    (m.runActs acts).Announced config := by
  induction acts generalizing m with
  | nil => exact hm
  | cons a acts ih => exact ih (hm.act a)

omit [LogService σ] in
-- There is nothing to announce when a journal is mounted.
theorem announced_create {build : Build} {store : Store} {log : σ} {m : Mount σ}
    (h : create build config store log = .ok m) : m.witnessed.Announced config := by
  rcases orderly_create h with ⟨hm, hrecords, _⟩
  refine ⟨⟨hm.config_eq, hm.isMap, hm.fits, hm.limit_eq⟩, ?_⟩
  rintro (hne | hne)
  · exact absurd hrecords hne
  · exact absurd rfl hne

/-- The records of a mounted journal and the descriptors it had written are announced by its
    superblock, with the width of their blocks, whatever happens and whatever the log does.
    Feature bits stay, every record has the width, and where the format has no feature
    fields there is never a feature, a record or a descriptor. -/
theorem revokes_announced {build : Build} {store : Store} {log : σ} {m : Mount σ}
    (hcreate : create build config store log = .ok m) (acts : List Act) :
    (m.witnessed.runActs acts).exchange Witnessed.log = m.runActs acts ∧
    ((m.runActs acts).journal.table.records ≠ [] ∨
        (m.witnessed.runActs acts).log.submitted ≠ [] →
      (m.runActs acts).Advertises Feature.revoke.bit ∧
        (config.recordWidth = .wide → (m.runActs acts).Advertises Feature.wideBlocks.bit)) ∧
    (∀ bits later, (m.runActs acts).Advertises bits →
      (m.runActs (acts ++ later)).Advertises bits) ∧
    (∀ r ∈ (m.runActs acts).journal.table.records, config.recordWidth.fits r.block = true) ∧
    (config.format = .v1 →
      (m.runActs acts).journal.features = 0 ∧ (m.runActs acts).journal.table.records = [] ∧
        (m.witnessed.runActs acts).log.submitted = []) := by
  have hsame : (m.witnessed.runActs acts).exchange Witnessed.log = m.runActs acts :=
    (runActs_exchange Witnessed.alike m.witnessed acts).symm
  have hjournal : (m.witnessed.runActs acts).journal = (m.runActs acts).journal := by
    rw [← hsame]
    rfl
  have hm := (announced_create hcreate).runActs acts
  have hannounced := hm.announced
  rw [hjournal] at hannounced
  have hneeded : (m.runActs acts).journal.table.records ≠ [] ∨
      (m.witnessed.runActs acts).log.submitted ≠ [] →
      (m.runActs acts).Advertises config.neededFeatures := by
    intro h
    have hbits := hannounced h
    rw [Advertises, hjournal] at hbits
    exact hbits
  refine ⟨hsame, fun h => (hneeded h).needed, fun bits later h => ?_, fun r hr => ?_,
    fun hformat => ?_⟩
  · rw [runActs_append]
    exact h.runActs later
  · have hfits := hm.orderly.fits r.block
    rw [Table.holds_iff_mem hm.orderly.isMap, hjournal] at hfits
    exact hfits (List.mem_map_of_mem hr)
  · rcases orderly_create hcreate with ⟨horderly, _, hnone⟩
    have hfeatures : (m.runActs acts).journal.features = 0 :=
      (horderly.features_runActs hformat acts).trans hnone
    -- Zero has none of the bits that are needed.
    have hempty : ¬ ((m.runActs acts).journal.table.records ≠ [] ∨
        (m.witnessed.runActs acts).log.submitted ≠ []) := by
      intro h
      have hbits := hneeded h
      rw [Advertises, hfeatures, UInt32.zero_and] at hbits
      exact config.neededFeatures_ne_zero hbits.symm
    rw [not_or, not_not, not_not] at hempty
    exact ⟨hfeatures, hempty⟩

end Mount

/-- The settings of a small journal with wide records. -/
def wideConfig : Config := { smallConfig with recordWidth := .wide }

/-- A small journal with wide records that was just mounted. -/
def wideMount : Mount RingLog :=
  { smallMount .debug with
    journal.config := wideConfig
    trace := #[.tableCreated 1 1024 .wide] }

-- A commit, and what was announced before it.
theorem revokes_announced_wide :
    Mount.create .debug wideConfig smallStore smallLog = .ok wideMount ∧
    (wideMount.witnessed.runActs [.call (.revoke ⟨1⟩ ⟨5⟩ none), .call (.commit ⟨1⟩)]).log.submitted
      ≠ [] ∧
    (wideMount.runActs [.call (.revoke ⟨1⟩ ⟨5⟩ none), .call (.commit ⟨1⟩)]).Advertises
      Feature.wideBlocks.bit := by
  have hcreate : Mount.create .debug wideConfig smallStore smallLog = .ok wideMount := rfl
  have hwritten : (wideMount.witnessed.runActs
      [.call (.revoke ⟨1⟩ ⟨5⟩ none), .call (.commit ⟨1⟩)]).log.submitted ≠ [] := by decide +kernel
  exact ⟨hcreate, hwritten,
    ((Mount.revokes_announced hcreate _).2.1 (Or.inr hwritten)).2 rfl⟩

end BlockJournal
