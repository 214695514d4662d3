import BlockJournal.Proofs.Revocation

/-!
# The Surroundings of a Mount

What the core leaves out, apart from the reports.

The core of a mount is what revokes and cancels are about. Around it lie the log, the
features the superblock advertises and the mark of an abort, and they change at a few
places only: a revoke adds features before anything else, and a call to the log leaves
the log in the state of its reply and may abort the journal. `Mount.surroundings` puts
them together with the settings, which never change, and each operation is an equation
between surroundings.

## Main definitions

* `Surroundings`, `Mount.surroundings`: The log, the features, the mark of an abort and
  the settings.
* `Surroundings.answered`: The surroundings after a call to the log.
* `Surroundings.featured`: The surroundings after features were added.
* `Surroundings.Forgotten`: The surroundings after a buffer may have been taken off the
  lists of a transaction.

## Theorems

* `and_eq_right_iff`, `or_eq_left_of_and_eq`: Words as sets of bits.
* `surroundings_absorb`, `surroundings_forget`, `surroundings_request`, `surroundings_file`,
  `surroundings_submit`: Calls to the log.
* `surroundings_addFeatures`, `surroundings_prepare`: What a revoke does first.
* `surroundings_proceed`: What it does once it has passed its test.
* `surroundings_revoke`: A revoke, and one that does not succeed.
* `surroundings_cancel`: A cancel stays inside the core.
-/

namespace BlockJournal

/-- A word has all the bits of another. -/
theorem and_eq_right_iff {a b : UInt32} :
    a &&& b = b ↔ ∀ (i : Nat) (hi : i < 32), b.toBitVec[i] = true → a.toBitVec[i] = true := by
  rw [← UInt32.toBitVec_inj, UInt32.toBitVec_and]
  constructor
  · intro h i hi hb
    rw [← h, BitVec.getElem_and, Bool.and_eq_true] at hb
    exact hb.1
  · intro h
    ext i hi
    specialize h i hi
    rw [BitVec.getElem_and]
    cases hb : b.toBitVec[i] with
    | false => exact Bool.and_false _
    | true => rw [h hb, Bool.and_true]

-- Bits that are there already change nothing.
theorem or_eq_left_of_and_eq {a b : UInt32} (h : a &&& b = b) : a ||| b = a := by
  rw [← UInt32.toBitVec_inj, UInt32.toBitVec_or]
  ext i hi
  have hbit := and_eq_right_iff.mp h i hi
  rw [BitVec.getElem_or]
  cases hb : b.toBitVec[i] with
  | false => exact Bool.or_false _
  | true => rw [hbit hb, Bool.or_true]

variable {σ : Type}

/-- What lies around the core of a mount. -/
structure Surroundings (σ : Type) where
  -- Whether broken rules stop the mount.
  build : Build
  -- The settings.
  config : Config
  -- The number of bytes in a block.
  blockSize : BlockSize
  -- The feature bits of the superblock.
  features : UInt32
  -- Whether the journal gave up writing to its log.
  aborted : Bool
  -- The log.
  log : σ

namespace Surroundings

/-- The surroundings after the log gave an answer. -/
def answered {α : Type} (s : Surroundings σ) (reply : Reply σ α) : Surroundings σ :=
  { s with log := reply.next, aborted := s.aborted || reply.abort }

/-- The surroundings after feature bits were added, where the format has any. -/
def featured (s : Surroundings σ) (bits : UInt32) : Surroundings σ :=
  match s.config.format with
  | .v1 => s
  | .v2 => { s with features := s.features ||| bits }

-- Adding features changes nothing else.
@[simp] theorem build_featured (s : Surroundings σ) (bits : UInt32) :
    (s.featured bits).build = s.build := by
  unfold featured
  split
  · rfl
  · rfl

@[simp] theorem log_featured (s : Surroundings σ) (bits : UInt32) :
    (s.featured bits).log = s.log := by
  unfold featured
  split
  · rfl
  · rfl

@[simp] theorem aborted_featured (s : Surroundings σ) (bits : UInt32) :
    (s.featured bits).aborted = s.aborted := by
  unfold featured
  split
  · rfl
  · rfl

/-- Surroundings in which a buffer may have been taken off the lists of a transaction. -/
def Forgotten [LogService σ] (s s' : Surroundings σ) : Prop :=
  s' = s ∨ ∃ tid b, s' = s.answered (LogService.forget s.log tid b)

end Surroundings

namespace Mount

/-- What lies around the core. -/
def surroundings (m : Mount σ) : Surroundings σ :=
  { build := m.build
    config := m.journal.config
    blockSize := m.journal.blockSize
    features := m.journal.features
    aborted := m.journal.aborted
    log := m.log }

@[simp] theorem surroundings_emit (m : Mount σ) (e : Event) :
    (m.emit e).surroundings = m.surroundings := rfl

@[simp] theorem surroundings_modifyBuffer (m : Mount σ) (id : BufferId) (f : Buffer → Buffer) :
    (m.modifyBuffer id f).surroundings = m.surroundings := rfl

theorem surroundings_abort (m : Mount σ) :
    m.abort.surroundings = { m.surroundings with aborted := true } := by
  unfold abort
  by_cases h : m.journal.aborted = true
  · rw [if_pos h, ← h]
    rfl
  · rw [if_neg h]
    rfl

/-- Taking in an answer of the log. -/
theorem surroundings_absorb {α : Type} (m : Mount σ) (reply : Reply σ α) :
    (m.absorb reply).surroundings = m.surroundings.answered reply := by
  simp only [absorb]
  by_cases h : reply.abort = true
  · rw [if_pos h, surroundings_abort, Surroundings.answered, h, Bool.or_true]
    rfl
  · rw [if_neg h, Surroundings.answered, Bool.eq_false_iff.mpr h, Bool.or_false]
    rfl

@[simp] theorem surroundings_settle (m : Mount σ) (v : Violation)
    (verdict : Except Violation Bool) : (m.settle v verdict).2.surroundings = m.surroundings := by
  rcases verdict with _ | _ | _ <;> rfl

@[simp] theorem surroundings_check (m : Mount σ) (v : Violation) (holds : Bool) :
    (m.check v holds).2.surroundings = m.surroundings :=
  surroundings_settle m v _

/-- Adding feature bits. Adding what is there already changes nothing. -/
theorem surroundings_addFeatures (m : Mount σ) (bits : UInt32) :
    (m.addFeatures bits).2.surroundings = m.surroundings.featured bits := by
  unfold addFeatures Surroundings.featured
  change _ = match m.journal.config.format with
    | .v1 => m.surroundings
    | .v2 => { m.surroundings with features := m.journal.features ||| bits }
  cases hformat : m.journal.config.format with
  | v1 => split <;> rfl
  | v2 =>
      by_cases h : m.journal.features &&& bits = bits
      · rw [if_pos h, or_eq_left_of_and_eq h]
        rfl
      · rw [if_neg h]
        rfl

@[simp] theorem surroundings_checkAlias (m : Mount σ) (block : BlockNumber)
    (given : Option BufferId) : (m.checkAlias block given).2.surroundings = m.surroundings := by
  have hcheck := surroundings_check m .cleanAlias
  unfold checkAlias
  cases given with
  | none => rfl
  | some id =>
      by_cases he : m.journal.config.expensiveChecks = true
      · simp only [he, if_true]
        specialize hcheck (m.aliasAgrees block id)
        rcases hr : m.check .cleanAlias (m.aliasAgrees block id) with ⟨stop | holds, m'⟩
        · rw [hr] at hcheck; exact hcheck
        · rw [hr] at hcheck; exact hcheck
      · simp only [he]
        rfl

/-- Getting ready for a revoke adds features and does nothing else out here. -/
theorem surroundings_prepare (m : Mount σ) (block : BlockNumber) (given : Option BufferId) :
    (m.prepare block given).2.surroundings =
      m.surroundings.featured m.journal.config.neededFeatures := by
  rw [← surroundings_addFeatures]
  unfold prepare
  rcases m.addFeatures m.journal.config.neededFeatures with ⟨e | ⟨⟩, m'⟩
  · rfl
  · simp only []
    split
    · exact surroundings_checkAlias m' block given
    · rfl

@[simp] theorem surroundings_markRevoked (m : Mount σ) (held : Held) :
    (m.markRevoked held).surroundings = m.surroundings := by
  unfold markRevoked
  split
  · rfl
  · rfl

@[simp] theorem surroundings_countRevoke (m : Mount σ) (refreshed : Bool) :
    (m.countRevoke refreshed).surroundings = m.surroundings := by
  cases refreshed with
  | true => rfl
  | false => rfl

@[simp] theorem surroundings_record (m : Mount σ) (tid : Tid) (block : BlockNumber) :
    (m.record tid block).2.surroundings = m.surroundings := rfl

@[simp] theorem surroundings_clearAlias (m : Mount σ) (id : BufferId) :
    (m.clearAlias id).surroundings = m.surroundings := by
  simp only [clearAlias]
  split
  · rfl
  · split
    · rfl
    · split
      · rfl
      · rfl

@[simp] theorem surroundings_takeBack (m : Mount σ) (tid : Tid) (block : BlockNumber) :
    (m.takeBack tid block).2.surroundings = m.surroundings := by
  unfold takeBack
  split
  · rfl
  · split
    · rfl
    · rfl

@[simp] theorem surroundings_checkCancelled (m : Mount σ) (block : BlockNumber) :
    (m.checkCancelled block).2.surroundings = m.surroundings := by
  have hcheck := surroundings_check m .survivedCancel (m.journal.table.find block).isNone
  unfold checkCancelled
  by_cases he : m.journal.config.expensiveChecks = true
  · simp only [he, if_true]
    rcases hr : m.check .survivedCancel (m.journal.table.find block).isNone with ⟨stop | holds, m'⟩
    · rw [hr] at hcheck; exact hcheck
    · rw [hr] at hcheck; exact hcheck
  · simp only [he]
    rfl

/-- A cancel stays inside the core. -/
theorem surroundings_cancel (m : Mount σ) (tid : Tid) (id : BufferId) :
    (m.cancel tid id).2.surroundings = m.surroundings := by
  by_cases hneeded : (m.store.get id).mayBeRevoked = true
  · simp only [cancel, hneeded, if_true]
    have htake := surroundings_takeBack (m.modifyBuffer id Buffer.markClean) tid
      (m.store.get id).block
    rcases ht : (m.modifyBuffer id Buffer.markClean).takeBack tid (m.store.get id).block with
      ⟨removed, m₁⟩
    rw [ht] at htake
    have hcheck := surroundings_checkCancelled m₁ (m.store.get id).block
    simp only []
    rcases hc : m₁.checkCancelled (m.store.get id).block with ⟨stop | ⟨⟩, m₂⟩
    · rw [hc] at hcheck
      exact hcheck.trans htake
    · rw [hc] at hcheck
      simp only [surroundings_clearAlias]
      exact hcheck.trans htake
  · let m₁ := (m.modifyBuffer id Buffer.markClean).countFastCancel
    have hcheck := surroundings_checkCancelled m₁ (m.store.get id).block
    simp only [cancel, hneeded, Bool.false_eq_true, if_false]
    rcases hc : m₁.checkCancelled (m.store.get id).block with ⟨stop | ⟨⟩, m₂⟩
    · rw [hc] at hcheck
      exact hcheck
    · rw [hc] at hcheck
      exact hcheck

variable [LogService σ]

-- The four calls to the log.
theorem surroundings_forget (m : Mount σ) (tid : Tid) (id : BufferId) :
    (m.forget tid id).surroundings =
      m.surroundings.answered (LogService.forget m.log tid (m.store.get id)) := by
  simp only [forget]
  split
  · rw [surroundings_modifyBuffer, surroundings_absorb]
  · rw [surroundings_absorb]

theorem surroundings_request (m : Mount σ) :
    m.request.2.surroundings = m.surroundings.answered (LogService.request m.log) := by
  simp only [request]
  split
  · rw [surroundings_absorb]
  · exact surroundings_absorb m _

theorem surroundings_file (m : Mount σ) (tid : Tid) (id : BufferId) :
    (m.file tid id).surroundings =
      m.surroundings.answered (LogService.file m.log tid id (m.store.get id)) := by
  simp only [file]
  split
  · rw [surroundings_absorb]
  · rw [surroundings_modifyBuffer, surroundings_absorb]

theorem surroundings_submit (m : Mount σ) (id : BufferId) :
    (m.submit id).surroundings =
      m.surroundings.answered (LogService.submit m.log id (m.store.get id)) :=
  surroundings_absorb m _

theorem surroundings_letGo (m : Mount σ) (tid : Tid) (held : Held) :
    m.surroundings.Forgotten (m.letGo tid held).surroundings := by
  cases held with
  | given id => exact Or.inr ⟨tid, m.store.get id, surroundings_forget m tid id⟩
  | found id => exact Or.inl rfl
  | nothing => exact Or.inl rfl

/-- Once it has passed its test a revoke has nothing but its buffer to take off the
    lists, and that only if it succeeds. -/
theorem surroundings_proceed (m : Mount σ) (tid : Tid) (block : BlockNumber) (held : Held) :
    m.surroundings.Forgotten (m.proceed tid block held).2.surroundings ∧
      ∀ stop, (m.proceed tid block held).1 = .error stop →
        (m.proceed tid block held).2.surroundings = m.surroundings := by
  have hrecord := surroundings_record m tid block
  unfold proceed
  rcases hr : m.record tid block with ⟨_ | e | refreshed, m'⟩
  · rw [hr] at hrecord
    exact ⟨Or.inl hrecord, fun _ _ => hrecord⟩
  · rw [hr] at hrecord
    exact ⟨Or.inl hrecord, fun _ _ => hrecord⟩
  · rw [hr] at hrecord
    simp only [surroundings_emit, surroundings_countRevoke, reduceCtorEq, false_implies,
      implies_true, and_true]
    have hlet := surroundings_letGo (m'.markRevoked held) tid held
    rw [surroundings_markRevoked] at hlet
    exact hrecord ▸ hlet

/-- A revoke adds the features it needs, and takes the buffer it was handed off the lists
    of the transaction at most. It leaves the lists alone if it does not succeed. -/
theorem surroundings_revoke (m : Mount σ) (tid : Tid) (block : BlockNumber)
    (given : Option BufferId) :
    (m.surroundings.featured m.journal.config.neededFeatures).Forgotten
        (m.revoke tid block given).2.surroundings ∧
      ∀ stop, (m.revoke tid block given).1 = .error stop →
        (m.revoke tid block given).2.surroundings =
          m.surroundings.featured m.journal.config.neededFeatures := by
  have hready := surroundings_prepare m block given
  rw [revoke_eq]
  rcases hp : m.prepare block given with ⟨stop | ⟨⟩, m₁⟩
  · rw [hp] at hready
    exact ⟨Or.inl hready, fun _ _ => hready⟩
  · rw [hp] at hready
    have hcheck := surroundings_check m₁ .revokedTwice (!m₁.isRevoked (m₁.hold block given))
    simp only []
    rcases hc : m₁.check .revokedTwice (!m₁.isRevoked (m₁.hold block given)) with
      ⟨stop | twice, m₂⟩
    · rw [hc] at hcheck
      exact ⟨Or.inl (hcheck.trans hready), fun _ _ => hcheck.trans hready⟩
    · rw [hc] at hcheck
      have hsame := hcheck.trans hready
      simp only [] at hsame
      rw [← hsame]
      cases twice with
      | false =>
          exact ⟨surroundings_letGo m₂ tid _, fun _ h =>
            absurd h (by simp only [reduceCtorEq, not_false_eq_true])⟩
      | true => exact surroundings_proceed m₂ tid block _

end Mount

end BlockJournal
