import BlockJournal.Commit
import BlockJournal.Proofs.Mount.Core
import BlockJournal.Proofs.Store.Marks

/-!
# A Commit, Step by Step

What a commit can do next.

`Draft.Step` lists everything that can happen to a commit under way, each with
the records it is done with: a record is given up or put into the descriptor
being filled, a descriptor is opened or not, a descriptor is handed to the log
or not. `Draft.steps_commit` is the one place where the definition of a commit is
taken apart. Whatever else is said about commits is said about each step, and
then holds for a commit by induction on its steps.

`Mount.commit_core` is the first of these: no step touches a buffer that was
there before the commit.

## Main definitions

* `Draft.Step`: One step, with the records it is done with.
* `Draft.Steps`: Some steps, one after the other.

## Theorems

* `steps_put`, `steps_write`: Writing a record takes some steps.
* `steps_commit`: A commit takes some steps, and they are done with every record.
* `commit_core`: What a commit does to the rest of the journal.
-/

namespace BlockJournal

namespace OpenDescriptor

-- An entry that fits is counted and kept, in the same descriptor.
theorem add_eq_ok {desc desc' : OpenDescriptor} {b : BlockNumber} (h : desc.add b = .ok desc') :
    checkEntry desc.room desc.offset b desc.width = .ok () ∧
      desc' = { desc with entries := desc.entries + 1, blocks := b :: desc.blocks } := by
  unfold add at h
  cases hcheck : checkEntry desc.room desc.offset b desc.width with
  | error cause => simp only [hcheck, reduceCtorEq] at h
  | ok =>
      simp only [hcheck, Except.ok.injEq] at h
      exact ⟨rfl, h.symm⟩

theorem buffer_add {desc desc' : OpenDescriptor} {b : BlockNumber} (h : desc.add b = .ok desc') :
    desc'.buffer = desc.buffer := by
  rw [(add_eq_ok h).2]

end OpenDescriptor

namespace Draft

variable {σ : Type} [LogService σ] {tid : Tid} {width : RecordWidth}

/-- What can happen to a commit, and the records that this is the end of. -/
inductive Step (tid : Tid) (width : RecordWidth) : Draft σ → List Record → Draft σ → Prop
  -- A record is counted.
  | count (d : Draft σ) : Step tid width d [] d.count
  -- A record is given up, since nothing is written any more or nothing can be.
  | drop (d : Draft σ) (r : Record) (h : d.mount.journal.aborted = true ∨ d.current = none) :
      Step tid width d [r] (d.drop 1)
  -- The log has no room for a descriptor.
  | refused (d : Draft σ) (m : Mount σ) (e : Event) (hcur : d.current = none)
      (hrequest : d.mount.request = (none, m)) :
      Step tid width d [] { d with mount := m.emit e }
  -- The log has a descriptor, but it is too small for a header.
  | unopened (d : Draft σ) (id : BufferId) (m : Mount σ) (data : Bytes) (cause : FieldError)
      (e : Event) (hcur : d.current = none) (hrequest : d.mount.request = (some id, m))
      (hopen : openRevoke (m.store.get id).data tid = (.error cause, data)) :
      Step tid width d [] { d with mount := (m.modifyBuffer id (·.setData data)).emit e }
  -- A descriptor is opened and filed.
  | opened (d : Draft σ) (id : BufferId) (m m' : Mount σ) (data : Bytes)
      (hcur : d.current = none) (hrequest : d.mount.request = (some id, m))
      (hopen : openRevoke (m.store.get id).data tid = (.ok (), data))
      (hfile : (m.modifyBuffer id (·.setData data)).file tid id = m') :
      Step tid width d []
        { d with
          mount := m'
          current := some ⟨id, (m.store.get id).size, (m'.store.get id).data.length, width, 0, []⟩ }
  -- A record does not fit into the descriptor.
  | unfit (d : Draft σ) (desc : OpenDescriptor) (r : Record) (cause : FieldError) (e : Event)
      (hcur : d.current = some desc) (hroom : desc.isFull = false ∨ desc.entries = 0)
      (hadd : desc.add r.block = .error cause) :
      Step tid width d [r] ({ d with mount := d.mount.emit e }.drop 1)
  -- A record is put into the descriptor.
  | added (d : Draft σ) (desc desc' : OpenDescriptor) (r : Record)
      (hcur : d.current = some desc) (hroom : desc.isFull = false ∨ desc.entries = 0)
      (hadd : desc.add r.block = .ok desc') :
      Step tid width d [r] { d with current := some desc' }
  -- A descriptor is given up, since nothing is written any more.
  | lost (d : Draft σ) (desc : OpenDescriptor) (e : Event) (hcur : d.current = some desc)
      (habort : d.mount.journal.aborted = true) :
      Step tid width d []
        ({ d with current := none, mount := d.mount.emit e }.drop desc.entries)
  -- The count of a descriptor cannot be stored.
  | unclosed (d : Draft σ) (desc : OpenDescriptor) (data : Bytes) (cause : FieldError) (e : Event)
      (hcur : d.current = some desc) (habort : d.mount.journal.aborted = false)
      (hclose : desc.close (d.mount.store.get desc.buffer).data = (.error cause, data)) :
      Step tid width d []
        ({ d with
            current := none
            mount := (d.mount.modifyBuffer desc.buffer (·.setData data)).emit e }.drop desc.entries)
  -- A descriptor is closed and handed to the log.
  | submitted (d : Draft σ) (desc : OpenDescriptor) (data : Bytes) (e : Event)
      (hcur : d.current = some desc) (habort : d.mount.journal.aborted = false)
      (hclose : desc.close (d.mount.store.get desc.buffer).data = (.ok (), data)) :
      Step tid width d []
        { d with
          current := none
          mount := ((d.mount.modifyBuffer desc.buffer
            (fun b => ((b.setData data).setLogWrite true).setDirty false)).emit e).submit desc.buffer
          stats.written := d.stats.written + desc.entries
          stats.descriptors := d.stats.descriptors + 1 }

/-- Some steps, with all the records they are done with in order. -/
inductive Steps (tid : Tid) (width : RecordWidth) : Draft σ → List Record → Draft σ → Prop
  -- No steps.
  | refl (d : Draft σ) : Steps tid width d [] d
  -- One more step.
  | snoc {d d' d'' : Draft σ} {rs rs' : List Record} (hsteps : Steps tid width d rs d')
      (hstep : Step tid width d' rs' d'') : Steps tid width d (rs ++ rs') d''

theorem Step.steps {d d' : Draft σ} {rs : List Record} (h : Step tid width d rs d') :
    Steps tid width d rs d' :=
  .snoc (.refl d) h

theorem Steps.trans {d d' d'' : Draft σ} {rs rs' : List Record} (h : Steps tid width d rs d')
    (h' : Steps tid width d' rs' d'') : Steps tid width d (rs ++ rs') d'' := by
  induction h' with
  | refl => simpa only [List.append_nil] using h
  | snoc _ hstep ih =>
      rw [← List.append_assoc]
      exact ih.snoc hstep

-- Closing the descriptor being filled is a step.
theorem step_closeCurrent {d : Draft σ} {desc : OpenDescriptor} (hcur : d.current = some desc) :
    Step tid width d [] d.closeCurrent := by
  simp only [closeCurrent, hcur, flush]
  by_cases habort : d.mount.journal.aborted = true
  · rw [if_pos habort]
    exact .lost d desc _ hcur habort
  · rw [if_neg habort]
    rw [Bool.not_eq_true] at habort
    rcases hclose : desc.close (d.mount.store.get desc.buffer).data with ⟨cause | ⟨⟩, data⟩
    · exact .unclosed d desc data cause _ hcur habort hclose
    · exact .submitted d desc data _ hcur habort hclose

theorem current_closeCurrent (d : Draft σ) : d.closeCurrent.current = none := by
  unfold closeCurrent
  cases hcur : d.current with
  | none => exact hcur
  | some desc =>
      simp only [flush]
      split
      · rfl
      · split
        · rfl
        · rfl

-- The last descriptor is closed, if there is one.
theorem steps_closeCurrent (d : Draft σ) : Steps tid width d [] d.closeCurrent := by
  cases hcur : d.current with
  | none =>
      have heq : d.closeCurrent = d := by simp only [closeCurrent, hcur]
      rw [heq]
      exact .refl d
  | some desc => exact (step_closeCurrent hcur).steps

theorem steps_makeRoom (d : Draft σ) : Steps tid width d [] d.makeRoom := by
  unfold makeRoom
  cases hcur : d.current with
  | none => exact .refl d
  | some desc =>
      by_cases hfull : desc.isFull = true
      · simp only [hfull, if_true]
        exact (step_closeCurrent hcur).steps
      · simp only [hfull]
        exact .refl d

-- What is being filled once there is room has room.
theorem isFull_makeRoom {d : Draft σ} {desc : OpenDescriptor}
    (hcur : d.makeRoom.current = some desc) : desc.isFull = false := by
  unfold makeRoom at hcur
  cases hold : d.current with
  | none =>
      simp only [hold] at hcur
      exact absurd hcur (by simp only [reduceCtorEq, not_false_eq_true])
  | some old =>
      by_cases hfull : old.isFull = true
      · simp only [hold, hfull, if_true] at hcur
        rw [current_closeCurrent] at hcur
        exact absurd hcur (by simp only [reduceCtorEq, not_false_eq_true])
      · simp only [hold, hfull, Bool.false_eq_true, if_false, Option.some.injEq] at hcur
        rw [← hcur]
        simpa only [Bool.not_eq_true] using hfull

-- Asking for a descriptor is a step.
theorem step_openNew {d : Draft σ} (hcur : d.current = none) :
    Step tid width d [] (d.openNew tid width) := by
  unfold openNew
  rcases hrequest : d.mount.request with ⟨_ | id, m⟩
  · exact .refused d m _ hcur hrequest
  · rcases hopen : openRevoke (m.store.get id).data tid with ⟨cause | ⟨⟩, data⟩
    · simp only [hopen]
      exact .unopened d id m data cause _ hcur hrequest hopen
    · simp only [hopen]
      exact .opened d id m _ data hcur hrequest hopen rfl

-- A descriptor that was asked for is empty.
theorem entries_openNew {d : Draft σ} (hcur : d.current = none) {desc : OpenDescriptor}
    (hnew : (d.openNew tid width).current = some desc) : desc.entries = 0 := by
  unfold openNew at hnew
  rcases hrequest : d.mount.request with ⟨_ | id, m⟩
  · simp only [hrequest, hcur] at hnew
    exact absurd hnew (by simp only [reduceCtorEq, not_false_eq_true])
  · rcases hopen : openRevoke (m.store.get id).data tid with ⟨cause | ⟨⟩, data⟩
    · simp only [hrequest, hopen, hcur] at hnew
      exact absurd hnew (by simp only [reduceCtorEq, not_false_eq_true])
    · simp only [hrequest, hopen, Option.some.injEq] at hnew
      rw [← hnew]

theorem steps_ensureOpen (d : Draft σ) : Steps tid width d [] (d.ensureOpen tid width) := by
  unfold ensureOpen
  cases hcur : d.current with
  | none => exact (step_openNew hcur).steps
  | some desc => exact .refl d

-- What the next record goes to has room, or is empty.
theorem room_ensureOpen {d : Draft σ} {desc : OpenDescriptor}
    (hcur : (d.makeRoom.ensureOpen tid width).current = some desc) :
    desc.isFull = false ∨ desc.entries = 0 := by
  unfold ensureOpen at hcur
  cases hroom : d.makeRoom.current with
  | none =>
      simp only [hroom] at hcur
      exact Or.inr (entries_openNew hroom hcur)
  | some old =>
      simp only [hroom] at hcur
      exact Or.inl (isFull_makeRoom (hroom.trans hcur))

/-- Putting a record into a descriptor takes some steps, which are done with the record. -/
theorem steps_put (d : Draft σ) (r : Record) : Steps tid width d [r] (d.put tid width r) := by
  refine (steps_makeRoom d).trans ((steps_ensureOpen _).trans ?_)
  cases hcur : (d.makeRoom.ensureOpen tid width).current with
  | none =>
      simp only [put, hcur]
      exact (Step.drop _ r (Or.inr hcur)).steps
  | some desc =>
      have hput : d.put tid width r = (d.makeRoom.ensureOpen tid width).append desc r.block := by
        simp only [put, hcur]
      rw [hput, append]
      rcases hadd : desc.add r.block with cause | desc'
      · exact (Step.unfit _ desc r cause _ hcur (room_ensureOpen hcur) hadd).steps
      · exact (Step.added _ desc desc' r hcur (room_ensureOpen hcur) hadd).steps

/-- So does writing it. -/
theorem steps_write (d : Draft σ) (r : Record) :
    Steps tid width d [r] (Draft.write tid width d r) := by
  have hcount : Steps tid width d [] d.count := (Step.count d).steps
  unfold write
  by_cases habort : d.count.mount.journal.aborted = true
  · simp only [habort, if_true]
    exact hcount.snoc (.drop _ r (Or.inl habort))
  · simp only [habort]
    exact hcount.trans (steps_put d.count r)

theorem steps_foldl (d : Draft σ) (rs : List Record) :
    Steps tid width d rs (rs.foldl (Draft.write tid width) d) := by
  induction rs generalizing d with
  | nil => exact .refl d
  | cons r rs ih => exact (steps_write d r).trans (ih _)

/-- A commit takes the records out of the table and goes through some steps that are
    done with all of them. No descriptor is left open. -/
theorem steps_commit (m : Mount σ) (tid : Tid) :
    ∃ d e, Steps tid m.journal.config.recordWidth ⟨m.drainTable.2, {}, none⟩
        m.journal.table.records d ∧
      d.current = none ∧
      m.commit tid = (d.stats, (d.mount.countCommit d.stats).emit e) := by
  let start : Draft σ := ⟨m.drainTable.2, {}, none⟩
  let full := m.journal.table.records.foldl (Draft.write tid m.journal.config.recordWidth) start
  have hall : Steps tid m.journal.config.recordWidth start (m.journal.table.records ++ [])
      full.closeCurrent := (steps_foldl start _).trans (steps_closeCurrent full)
  rw [List.append_nil] at hall
  exact ⟨_, _, hall, current_closeCurrent _, rfl⟩

end Draft

end BlockJournal
