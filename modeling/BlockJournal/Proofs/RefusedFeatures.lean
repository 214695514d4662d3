import BlockJournal.Proofs.Features

/-!
# Features after a Refused Revoke

What a revoke that does not succeed leaves in the superblock.

A revoke announces itself first and looks at its block and at the pool afterwards. If it
is refused then, the feature bits are there already, although nothing is revoked. Most
refusals do not show this, since the bits were there before: whoever tried to revoke a
block earlier, with or without success, has added them. What was asked for since the
journal was mounted is known from the acts alone, and `Act.requested` puts it together. A
refused revoke changes the superblock exactly if its bits are not all among these and
the format has a place for them.

## Main definitions

* `Act.requested`: The feature bits that some acts ask for.

## Theorems

* `or_eq_left_iff`: Bits that change nothing are there.
* `requested_of_mem`: What one of the acts asks for is among it.
* `features_runActs_eq`: The features after a run.
* `features_of_refused`: The features after a revoke that did not succeed.
* `refused_keeps_features_iff`: The refusals that leave the superblock alone.
-/

namespace BlockJournal

/-- Bits that change nothing when they are added are there. -/
theorem or_eq_left_iff {a b : UInt32} : a ||| b = a ↔ a &&& b = b := by
  refine ⟨fun h => ?_, or_eq_left_of_and_eq⟩
  rw [← h]
  exact or_and_right_self

/-- The feature bits that some acts ask for. -/
def Act.requested (config : Config) : List Act → UInt32
  | [] => 0
  | a :: acts => a.features config ||| requested config acts

-- What one of the acts asks for is among what all of them ask for.
theorem Act.requested_of_mem {config : Config} {a : Act} {acts : List Act} (h : a ∈ acts) :
    requested config acts &&& a.features config = a.features config := by
  induction acts with
  | nil => exact absurd h List.not_mem_nil
  | cons first acts ih =>
      rw [requested]
      rcases List.mem_cons.mp h with rfl | h
      · rw [UInt32.or_comm]
        exact or_and_right_self
      · rw [UInt32.or_comm]
        exact or_and_of_and_eq (ih h)

namespace Mount

variable {σ : Type} [LogService σ] {config : Config}

/-- On the second format a run adds what its acts ask for. -/
theorem Orderly.features_runActs_eq {m : Mount σ} (hm : m.Orderly config)
    (hformat : config.format = .v2) (acts : List Act) :
    (m.runActs acts).journal.features = m.journal.features ||| Act.requested config acts := by
  induction acts generalizing m with
  | nil => exact UInt32.or_zero.symm
  | cons a acts ih =>
      have hsettings : m.surroundings.config.format = .v2 := by
        rw [← hformat, ← hm.config_eq]
        rfl
      have hact : (m.act a).journal.features = m.journal.features ||| a.features config := by
        rw [features_act, Surroundings.features_featured, hsettings, hm.config_eq]
        rfl
      rw [runActs_cons, ih (hm.act a), hact, Act.requested, UInt32.or_assoc]

/-- A revoke that does not succeed has added the features it needs all the same, where the
    format has a place for them. -/
theorem features_of_refused {m : Mount σ} {tid : Tid} {block : BlockNumber}
    {given : Option BufferId} {stop : Stop} (h : (m.revoke tid block given).1 = .error stop) :
    (m.revoke tid block given).2.journal.features =
      match m.journal.config.format with
      | .v1 => m.journal.features
      | .v2 => m.journal.features ||| m.journal.config.neededFeatures := by
  have hsame := congrArg Surroundings.features ((m.surroundings_revoke tid block given).2 stop h)
  rw [Surroundings.features_featured] at hsame
  exact hsame

/-- Whatever state a journal is in, a revoke that does not succeed leaves the features alone
    exactly if there is no place for them, or if those that it needs were there before. -/
theorem features_of_refused_eq_iff {m : Mount σ} {tid : Tid} {block : BlockNumber}
    {given : Option BufferId} {stop : Stop} (h : (m.revoke tid block given).1 = .error stop) :
    (m.revoke tid block given).2.journal.features = m.journal.features ↔
      m.journal.config.format = .v1 ∨ m.Advertises m.journal.config.neededFeatures := by
  rw [features_of_refused h]
  cases m.journal.config.format with
  | v1 => simp only [true_or]
  | v2 => simp only [or_eq_left_iff, reduceCtorEq, false_or, Advertises]

/-- A revoke of a mounted journal that fails or is stopped, whatever happened before and
    whatever it fails for, leaves the features of the superblock alone exactly if the format
    has none, or if what the acts before it asked for includes what it needs. So it does if
    another revoke was tried before. Otherwise it has added what it needs. -/
theorem refused_keeps_features_iff {build : Build} {store : Store} {log : σ} {m : Mount σ}
    (hcreate : create build config store log = .ok m) (acts : List Act) {tid : Tid}
    {block : BlockNumber} {given : Option BufferId} {stop : Stop}
    (h : ((m.runActs acts).revoke tid block given).1 = .error stop) :
    let before := (m.runActs acts).journal.features
    let after := ((m.runActs acts).revoke tid block given).2.journal.features
    (after = before ↔ config.format = .v1 ∨
      Act.requested config acts &&& config.neededFeatures = config.neededFeatures) ∧
    ((∃ tid' block' given', .call (.revoke tid' block' given') ∈ acts) → after = before) ∧
    (after ≠ before → after = before ||| config.neededFeatures) := by
  intro before after
  rcases orderly_create hcreate with ⟨horderly, _, hnone⟩
  have hconfig : (m.runActs acts).journal.config = config := (horderly.runActs acts).config_eq
  have hiff : after = before ↔ config.format = .v1 ∨
      Act.requested config acts &&& config.neededFeatures = config.neededFeatures := by
    have hstate := features_of_refused_eq_iff h
    rw [hconfig] at hstate
    rw [show after = before ↔ _ from hstate]
    cases hformat : config.format with
    | v1 => simp only [true_or]
    | v2 =>
        rw [Advertises, horderly.features_runActs_eq hformat, hnone, UInt32.zero_or]
  refine ⟨hiff, ?_, fun hne => ?_⟩
  · rintro ⟨tid', block', given', hmem⟩
    exact hiff.mpr (Or.inr (Act.requested_of_mem hmem))
  · have hadded := features_of_refused h
    rw [hconfig] at hadded
    cases hformat : config.format with
    | v1 => exact absurd (hiff.mpr (Or.inl hformat)) hne
    | v2 =>
        rw [hformat] at hadded
        exact hadded

end Mount

/-- The settings of a small journal that has no memory for records at all. -/
def exhaustedConfig : Config := { smallConfig with recordLimit := some 0 }

/-- A small journal that has no memory for records, just mounted. -/
def exhaustedMount : Mount RingLog :=
  { smallMount .debug with
    journal.config := exhaustedConfig
    pool := Pool.new (some 0) }

-- The second revoke to find no memory changes nothing any more.
theorem refused_keeps_features_exhausted :
    Mount.create .debug exhaustedConfig smallStore smallLog = .ok exhaustedMount ∧
    ((exhaustedMount.runActs [.call (.revoke ⟨1⟩ ⟨5⟩ none)]).revoke ⟨1⟩ ⟨6⟩ none).1 =
      .error (.failed (.poolExhausted 0)) ∧
    ((exhaustedMount.runActs [.call (.revoke ⟨1⟩ ⟨5⟩ none)]).revoke ⟨1⟩ ⟨6⟩
      none).2.journal.features =
      (exhaustedMount.runActs [.call (.revoke ⟨1⟩ ⟨5⟩ none)]).journal.features := by
  have hcreate : Mount.create .debug exhaustedConfig smallStore smallLog = .ok exhaustedMount :=
    rfl
  have hrefused : ((exhaustedMount.runActs [.call (.revoke ⟨1⟩ ⟨5⟩ none)]).revoke ⟨1⟩ ⟨6⟩
      none).1 = .error (.failed (.poolExhausted 0)) := by decide +kernel
  refine ⟨hcreate, hrefused, (Mount.refused_keeps_features_iff hcreate _ hrefused).2.1 ?_⟩
  exact ⟨⟨1⟩, ⟨5⟩, none, List.mem_singleton_self _⟩

-- The first one has announced revokes, and so has one of a block that does not fit.
theorem refused_adds_features :
    ((exhaustedMount.revoke ⟨1⟩ ⟨5⟩ none).1 = .error (.failed (.poolExhausted 0)) ∧
      exhaustedMount.journal.features = 0 ∧
      (exhaustedMount.revoke ⟨1⟩ ⟨5⟩ none).2.journal.features = 1) ∧
    (((smallMount .debug).revoke ⟨1⟩ ⟨4294967296⟩ none).1 =
        .error (.failed (.recordTooNarrow ⟨4294967296⟩ .narrow)) ∧
      (smallMount .debug).journal.features = 0 ∧
      ((smallMount .debug).revoke ⟨1⟩ ⟨4294967296⟩ none).2.journal.features = 1) := by
  decide +kernel

end BlockJournal
