import BlockJournal.Proofs.Commit.Steps
import BlockJournal.Proofs.Mount.Exchange

/-!
# Commits Under Strikes

Commits during which the journal is aborted or its device begins to fail.

Anybody may abort a journal or make its device refuse writes while a commit is under way,
be it another thread or the log in the middle of a call. A commit looks at the journal before
each record and before it hands over a descriptor, and the device is looked at when a
descriptor is written. Nothing else of it depends on either, so what a strike does to a
commit depends on two things: between which records it comes, and whether the journal was
already looked at for the next of them. `Mount.commitAmid` is a commit that is told the
strikes for each of these places. A strike that comes anywhere else could as well have come
at one of them, as far as anything but the order of the reports can tell.

A descriptor that was filed is given up when the journal turns out to be aborted. So it
is on the list of its transaction and was never handed over.

A commit under strikes goes through the steps of a commit, with strikes between any two of
them. `StepsAmid` says no more than this, and it is enough for whatever both keep.

## Main definitions

* `Strike`: What can happen at any time.
* `DeviceLog`: A log on a device that can be made to refuse writes.
* `Strikes`: The strikes that come while a record is written.
* `Mount.commitAmid`: A commit under strikes.
* `Draft.StepsAmid`: Some steps, with strikes between them.

## Theorems

* `commitAmid_nil`: Without strikes it is a commit.
* `stepsAmid_commitAmid`: A commit under strikes takes some steps, with strikes between them.
* `commitAmid_exchange`: It knows its log by the answers it gets.
-/

namespace BlockJournal

/-- What can happen to a journal and its device at any time. -/
inductive Strike where
  -- The journal is aborted.
  | abort
  -- The device is made to refuse writes, or to stop doing so.
  | setFailing (failing : Bool)
  deriving DecidableEq, Repr

/-- A log on a device that can be made to refuse writes. -/
class DeviceLog (σ : Type) where
  /-- The log once its device was told whether to refuse writes. -/
  setFailing : σ → Bool → σ

instance : DeviceLog RingLog where
  setFailing log failing := { log with device := log.device.setFailing failing }

/-- The strikes that come while a record is written. -/
structure Strikes where
  /-- Before the commit looks whether the journal was aborted. -/
  before : List Strike := []
  /-- After it looked. -/
  after : List Strike := []
  deriving DecidableEq, Repr

variable {σ τ : Type}

namespace Mount

variable [DeviceLog σ]

/-- A mount after a strike. -/
def strike (m : Mount σ) : Strike → Mount σ
  | .abort => m.abort
  | .setFailing failing => { m with log := DeviceLog.setFailing m.log failing }

/-- A mount after some strikes. -/
def struck (m : Mount σ) (strikes : List Strike) : Mount σ := strikes.foldl strike m

end Mount

namespace Draft

variable [LogService σ] [DeviceLog σ]

omit [LogService σ] in
/-- A commit after some strikes. -/
def struck (d : Draft σ) (strikes : List Strike) : Draft σ :=
  { d with mount := d.mount.struck strikes }

/-- Write one record under strikes. -/
def writeAmid (tid : Tid) (width : RecordWidth) (d : Draft σ) (r : Record) (s : Strikes) :
    Draft σ :=
  let seen := d.count.struck s.before
  let d := seen.struck s.after
  if seen.mount.journal.aborted then d.drop 1 else d.put tid width r

/-- Write some records, each under strikes of its own as far as there are any. -/
def writeAllAmid (tid : Tid) (width : RecordWidth) :
    Draft σ → List Record → List Strikes → Draft σ
  | d, [], _ => d
  | d, r :: rs, strikes =>
      (d.writeAmid tid width r (strikes.headD {})).writeAllAmid tid width rs strikes.tail

end Draft

namespace Mount

variable [LogService σ] [DeviceLog σ]

/-- Write the records of a transaction to the log under strikes, each record under those of
    its own. The last strikes come before the last descriptor is closed. -/
def commitAmid (m : Mount σ) (tid : Tid) (strikes : List Strikes) (last : List Strike) :
    WriteStats × Mount σ :=
  let (records, m) := m.drainTable
  let d : Draft σ := ⟨m, {}, none⟩
  let d := ((d.writeAllAmid tid m.journal.config.recordWidth records strikes).struck
    last).closeCurrent
  (d.stats, d.mount.finishCommit tid d.stats)

end Mount

namespace Draft

variable [LogService σ] [DeviceLog σ] {tid : Tid} {width : RecordWidth}

theorem writeAllAmid_nil (d : Draft σ) (rs : List Record) :
    d.writeAllAmid tid width rs [] = rs.foldl (write tid width) d := by
  induction rs generalizing d with
  | nil => rfl
  | cons r rs ih => exact ih _

/-- Some steps of a commit, with strikes between them. -/
inductive StepsAmid (tid : Tid) (width : RecordWidth) : Draft σ → Draft σ → Prop
  -- No steps.
  | refl (d : Draft σ) : StepsAmid tid width d d
  -- One more step.
  | step {d d' d'' : Draft σ} {rs : List Record} (hsteps : StepsAmid tid width d d')
      (hstep : Step tid width d' rs d'') : StepsAmid tid width d d''
  -- One more strike.
  | strike {d d' : Draft σ} (hsteps : StepsAmid tid width d d') (s : Strike) :
      StepsAmid tid width d { d' with mount := d'.mount.strike s }

-- What comes after some steps comes with strikes before it as well.
theorem StepsAmid.steps {d d' d'' : Draft σ} {rs : List Record} (h : StepsAmid tid width d d')
    (h' : Steps tid width d' rs d'') : StepsAmid tid width d d'' := by
  induction h' with
  | refl => exact h
  | snoc _ hstep ih => exact ih.step hstep

theorem StepsAmid.struck {d d' : Draft σ} (h : StepsAmid tid width d d') (strikes : List Strike) :
    StepsAmid tid width d (d'.struck strikes) := by
  induction strikes generalizing d' with
  | nil => exact h
  | cons s strikes ih => exact ih (h.strike s)

-- Writing a record.
theorem StepsAmid.writeAmid {d d' : Draft σ} (h : StepsAmid tid width d d') (r : Record)
    (s : Strikes) : StepsAmid tid width d (d'.writeAmid tid width r s) := by
  have hseen := (h.step (.count d')).struck s.before
  unfold Draft.writeAmid
  by_cases haborted : (d'.count.struck s.before).mount.journal.aborted = true
  · -- The record is given up where the commit looked, and the strikes come after that.
    simp only [haborted, if_true]
    exact (hseen.step (.drop _ r (Or.inl haborted))).struck s.after
  · simp only [haborted]
    exact (hseen.struck s.after).steps (steps_put _ r)

theorem StepsAmid.writeAllAmid {d d' : Draft σ} (h : StepsAmid tid width d d')
    (rs : List Record) (strikes : List Strikes) :
    StepsAmid tid width d (d'.writeAllAmid tid width rs strikes) := by
  induction rs generalizing d' strikes with
  | nil => exact h
  | cons r rs ih => exact ih (h.writeAmid r _) strikes.tail

/-- A commit under strikes takes the records out of the table and goes through some steps,
    with strikes between them. No descriptor is left open. -/
theorem stepsAmid_commitAmid (m : Mount σ) (tid : Tid) (strikes : List Strikes)
    (last : List Strike) :
    ∃ d e, StepsAmid tid m.journal.config.recordWidth ⟨m.drainTable.2, {}, none⟩ d ∧
      d.current = none ∧
      m.commitAmid tid strikes last = (d.stats, (d.mount.countCommit d.stats).emit e) := by
  let start : Draft σ := ⟨m.drainTable.2, {}, none⟩
  have hbegin : StepsAmid tid m.journal.config.recordWidth start start := .refl start
  have hwritten := hbegin.writeAllAmid m.drainTable.1 strikes
  exact ⟨_, _, (hwritten.struck last).steps (steps_closeCurrent _), current_closeCurrent _, rfl⟩

end Draft

namespace Mount

variable [LogService σ] [DeviceLog σ]

/-- Without strikes it is a commit. -/
theorem commitAmid_nil (m : Mount σ) (tid : Tid) : m.commitAmid tid [] [] = m.commit tid := by
  simp only [commitAmid, Draft.writeAllAmid_nil]
  rfl

end Mount

/-- A log answers every call as another does, and its device is told the same. -/
structure DeviceLog.Alike [LogService σ] [LogService τ] [DeviceLog σ] [DeviceLog τ] (φ : σ → τ) :
    Prop extends LogService.Alike φ where
  setFailing_eq : ∀ s failing,
    DeviceLog.setFailing (φ s) failing = φ (DeviceLog.setFailing s failing)

section

variable {φ : σ → τ} [LogService σ] [LogService τ] [DeviceLog σ] [DeviceLog τ]

theorem Mount.strike_exchange (hφ : DeviceLog.Alike φ) (m : Mount σ) (s : Strike) :
    (m.exchange φ).strike s = (m.strike s).exchange φ := by
  cases s with
  | abort => exact abort_exchange φ m
  | setFailing failing =>
      have hlog : (m.exchange φ).log = φ m.log := rfl
      simp only [strike, hlog, hφ.setFailing_eq]
      rfl

namespace Draft

open Mount

theorem struck_exchange (hφ : DeviceLog.Alike φ) (d : Draft σ) (strikes : List Strike) :
    (d.exchange φ).struck strikes = (d.struck strikes).exchange φ := by
  induction strikes generalizing d with
  | nil => rfl
  | cons s strikes ih =>
      have hstrike : ({ d.exchange φ with mount := (d.exchange φ).mount.strike s } : Draft τ) =
          ({ d with mount := d.mount.strike s } : Draft σ).exchange φ :=
        congrArg (Draft.mk · d.stats d.current) (strike_exchange hφ d.mount s)
      exact (congrArg (Draft.struck · strikes) hstrike).trans (ih _)

theorem writeAmid_exchange (hφ : DeviceLog.Alike φ) (tid : Tid) (width : RecordWidth)
    (d : Draft σ) (r : Record) (s : Strikes) :
    (d.exchange φ).writeAmid tid width r s = (d.writeAmid tid width r s).exchange φ := by
  let seen := d.count.struck s.before
  have hseen : (d.exchange φ).count.struck s.before = seen.exchange φ :=
    struck_exchange hφ d.count s.before
  have haborted : (seen.exchange φ).mount.journal.aborted = seen.mount.journal.aborted := rfl
  simp only [writeAmid, hseen, haborted, struck_exchange hφ, put_exchange hφ.toAlike]
  split
  · rfl
  · rfl

theorem writeAllAmid_exchange (hφ : DeviceLog.Alike φ) (tid : Tid) (width : RecordWidth)
    (d : Draft σ) (rs : List Record) (strikes : List Strikes) :
    (d.exchange φ).writeAllAmid tid width rs strikes =
      (d.writeAllAmid tid width rs strikes).exchange φ := by
  induction rs generalizing d strikes with
  | nil => rfl
  | cons r rs ih =>
      rw [writeAllAmid, writeAmid_exchange hφ, ih]
      rfl

end Draft

/-- A commit under strikes does the same to a mount over another log that answers alike. -/
theorem Mount.commitAmid_exchange (hφ : DeviceLog.Alike φ) (m : Mount σ) (tid : Tid)
    (strikes : List Strikes) (last : List Strike) :
    (m.exchange φ).commitAmid tid strikes last =
      (m.commitAmid tid strikes last).map id (exchange φ) := by
  let d : Draft σ := ⟨m.drainTable.2, {}, none⟩
  have hbegin : (⟨(m.exchange φ).drainTable.2, {}, none⟩ : Draft τ) = d.exchange φ := rfl
  have hwidth : (m.exchange φ).drainTable.2.journal.config.recordWidth =
      m.drainTable.2.journal.config.recordWidth := rfl
  have hrecords : (m.exchange φ).drainTable.1 = m.drainTable.1 := rfl
  simp only [commitAmid, hbegin, hwidth, hrecords, Draft.writeAllAmid_exchange hφ,
    Draft.struck_exchange hφ, Draft.closeCurrent_exchange hφ.toAlike]
  rfl

end

end BlockJournal
