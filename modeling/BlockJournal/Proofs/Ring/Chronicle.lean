import BlockJournal.Proofs.Ring.Ledger
import Mathlib.Data.List.DropRight
import Mathlib.Data.List.Pairwise

/-!
# The Chronicle of a Circular Log

A circular log that remembers what happened to its descriptors.

A log remembers a write that failed by its block, and only until somebody waits. The
block is handed out again later, and nothing in the log tells the two writes apart, so
what a wait ought to report cannot be said in terms of the log. A `Chronicle` is a log
with its books that also lists, oldest first, which descriptors were filed, which were
handed over to be written and whether they reached the device, and which transactions
were waited for. It answers every call as the log does.

What a transaction has coming to it is read off the list alone: `due` takes the
descriptors that were filed under it, in that order, and keeps those that were handed
over since it was last waited for.

## Main definitions

* `Deed`: What can happen to the descriptors of a log.
* `since`: What happened since a transaction was waited for.
* `Sending`, `due`: What a wait has to report.
* `owed`: The blocks of descriptors that were not waited for.
* `Listed`: Deeds that can be done.
* `Chronicle`: A log with its books and the list.
* `Mount.chronicleOps`: A mount with a chronicle after some operations.
* `Mount.Careful`: Only blocks that were waited for are released.

## Theorems

* `mem_due`: What is due was filed, and handed over since.
* `due_filed`, `due_submitted`, `due_waited`: What one deed does to what is due.
* `not_due_again`: What was due at a wait is not due after it.
* `Chronicle.alike`: A log with a chronicle answers like a log.
* `unchronicled_chronicleOps`: A run with a chronicle is the run without it.
-/

namespace BlockJournal

/-- What can happen to the descriptors of a log. -/
inductive Deed where
  -- A descriptor on a block is filed under a transaction.
  | filed (tid : Tid) (id : BufferId) (block : BlockNumber)
  -- A buffer is handed over to be written, and reaches the device or does not.
  | submitted (id : BufferId) (reached : Bool)
  -- A transaction is waited for.
  | waited (tid : Tid)
  deriving DecidableEq, Repr

/-- A descriptor that was handed over to be written. -/
structure Sending where
  /-- Its buffer. -/
  id : BufferId
  /-- Its block. -/
  block : BlockNumber
  /-- Whether it reached the device. -/
  reached : Bool
  deriving DecidableEq, Repr

namespace Deed

/-- The deed is about a buffer. -/
def Concerns (id : BufferId) : Deed → Prop
  | filed _ other _ | submitted other _ => other = id
  | waited _ => False

/-- The buffer and the block of a descriptor that is filed under a transaction. -/
def filing? (tid : Tid) : Deed → Option (BufferId × BlockNumber)
  | filed other id block => if other = tid then some (id, block) else none
  | submitted .. | waited _ => none

/-- What came of handing over a buffer. -/
def outcome? (id : BufferId) : Deed → Option Bool
  | submitted other reached => if other = id then some reached else none
  | filed .. | waited _ => none

/-- The same buffer is filed again, or handed over again. -/
def Repeats : Deed → Deed → Prop
  | filed _ id _, filed _ other _ => other = id
  | submitted id _, submitted other _ => other = id
  | _, _ => False

theorem filing?_eq_some {tid : Tid} {d : Deed} {f : BufferId × BlockNumber} :
    d.filing? tid = some f ↔ d = filed tid f.1 f.2 := by
  cases d with
  | filed other id block =>
      simp only [filing?, Option.ite_none_right_eq_some, Option.some.injEq, filed.injEq,
        Prod.ext_iff]
  | submitted id reached => simp only [filing?, reduceCtorEq]
  | waited other => simp only [filing?, reduceCtorEq]

theorem outcome?_eq_some {id : BufferId} {d : Deed} {reached : Bool} :
    d.outcome? id = some reached ↔ d = submitted id reached := by
  cases d with
  | filed tid other block => simp only [outcome?, reduceCtorEq]
  | submitted other r =>
      simp only [outcome?, Option.ite_none_right_eq_some, Option.some.injEq, submitted.injEq]
  | waited tid => simp only [outcome?, reduceCtorEq]

theorem Repeats.symm {d d' : Deed} (h : d.Repeats d') : d'.Repeats d := by
  cases d with
  | filed tid id block =>
      cases d' with
      | filed tid' id' block' => exact Eq.symm h
      | submitted id' reached' => exact h
      | waited tid' => exact h
  | submitted id reached =>
      cases d' with
      | filed tid' id' block' => exact h
      | submitted id' reached' => exact Eq.symm h
      | waited tid' => exact h
  | waited tid => exact h.elim

-- What repeats a deed is about the same buffer.
theorem Repeats.concerns_filed {d : Deed} {tid : Tid} {id : BufferId} {block : BlockNumber}
    (h : d.Repeats (filed tid id block)) : d.Concerns id := by
  cases d with
  | filed tid' id' block' => exact Eq.symm h
  | submitted id' reached => exact h.elim
  | waited tid' => exact h.elim

theorem Repeats.not_waited {d : Deed} {tid : Tid} : ¬ d.Repeats (waited tid) := by
  cases d with
  | filed _ _ _ => exact id
  | submitted _ _ => exact id
  | waited _ => exact id

theorem Repeats.eq_submitted {d : Deed} {id : BufferId} {reached : Bool}
    (h : d.Repeats (submitted id reached)) : ∃ reached', d = submitted id reached' := by
  cases d with
  | filed tid' id' block' => exact h.elim
  | submitted id' reached' => exact ⟨reached', congrArg (submitted · reached') (Eq.symm h)⟩
  | waited tid' => exact h.elim

end Deed

/-- What happened since a transaction was waited for. -/
def since (tid : Tid) (h : List Deed) : List Deed := h.rtakeWhile (· ≠ .waited tid)

/-- The descriptors that were filed under a transaction, oldest first. -/
def filings (tid : Tid) (h : List Deed) : List (BufferId × BlockNumber) :=
  h.filterMap (Deed.filing? tid)

/-- What came of handing over a buffer, if it was handed over. -/
def outcome (id : BufferId) (h : List Deed) : Option Bool := h.findSome? (Deed.outcome? id)

/-- What a wait for a transaction has to report: the descriptors that were handed over
    since the last one, in the order in which they were filed. -/
def due (tid : Tid) (h : List Deed) : List Sending :=
  (filings tid h).filterMap fun f => (outcome f.1 (since tid h)).map (⟨f.1, f.2, ·⟩)

/-- The blocks of the descriptors that were filed under transactions which were not
    waited for since. -/
def owed (h : List Deed) : List BlockNumber :=
  h.filterMap fun d =>
    match d with
    | .filed tid _ block => if d ∈ since tid h then some block else none
    | .submitted .. | .waited _ => none

/-- The report of a wait: the blocks that were written, or those that were not if there
    are any. -/
def report (ds : List Sending) : Except Error (List BlockNumber) :=
  if ∀ d ∈ ds, d.reached = true then .ok (ds.map Sending.block)
  else .error (.logWriteFailed ((ds.filter (! ·.reached)).map Sending.block))

section

variable {h : List Deed} {d : Deed} {tid other : Tid} {id : BufferId} {block : BlockNumber}
  {reached : Bool}

theorem since_concat (h : List Deed) (d : Deed) (tid : Tid) :
    since tid (h ++ [d]) = if d = .waited tid then [] else since tid h ++ [d] := by
  rw [since, List.rtakeWhile_concat]
  by_cases hd : d = .waited tid
  · rw [if_pos hd, if_neg (by simp only [hd, ne_eq, not_true, decide_false, Bool.false_eq_true,
      not_false_eq_true])]
  · rw [if_neg hd, if_pos (by simp only [ne_eq, hd, not_false_eq_true, decide_true])]
    rfl

-- What happened since is part of what happened.
theorem since_suffix (tid : Tid) (h : List Deed) : since tid h <:+ h :=
  List.rtakeWhile_suffix _ h

theorem mem_of_mem_since (hd : d ∈ since tid h) : d ∈ h := (since_suffix tid h).mem hd

theorem mem_since_concat {new : Deed} :
    d ∈ since tid (h ++ [new]) ↔ new ≠ .waited tid ∧ (d ∈ since tid h ∨ d = new) := by
  rw [since_concat]
  by_cases hnew : new = .waited tid
  · simp only [hnew, if_true, List.not_mem_nil, ne_eq, not_true, false_and]
  · simp only [hnew, if_false, List.mem_append, List.mem_singleton, ne_eq, not_false_eq_true,
      true_and]

-- It is part of what happened after a wait.
theorem since_waited_append (tid : Tid) (h later : List Deed) :
    since tid (h ++ .waited tid :: later) <:+ later := by
  induction later using List.reverseRecOn with
  | nil => exact ⟨[], (since_concat h (.waited tid) tid).trans (if_pos rfl)⟩
  | append_singleton later d ih =>
      rw [← List.cons_append, ← List.append_assoc, since_concat]
      split
      · exact List.nil_suffix
      · rw [List.suffix_append_inj_of_length_eq rfl]
        exact ⟨ih, rfl⟩

theorem mem_filings {f : BufferId × BlockNumber} :
    f ∈ filings tid h ↔ .filed tid f.1 f.2 ∈ h := by
  simp only [filings, List.mem_filterMap, Deed.filing?_eq_some, exists_eq_right]

-- Nothing came of a buffer that nothing is about.
theorem outcome_eq_none (hid : ∀ d ∈ h, ¬ d.Concerns id) : outcome id h = none := by
  refine List.findSome?_eq_none_iff.mpr fun d hd => ?_
  cases hd' : d.outcome? id with
  | none => rfl
  | some reached =>
      rw [Deed.outcome?_eq_some.mp hd'] at hd
      exact absurd rfl (hid _ hd)

theorem submitted_of_outcome (ho : outcome id h = some reached) : .submitted id reached ∈ h := by
  rcases List.exists_of_findSome?_eq_some ho with ⟨d, hd, heq⟩
  exact Deed.outcome?_eq_some.mp heq ▸ hd

/-- Deeds that can be done with `n` buffers. -/
structure Listed (h : List Deed) (n : Nat) : Prop where
  -- Nothing happened to buffers that do not exist.
  known : ∀ d ∈ h, ∀ id, d.Concerns id → id < n
  -- Nothing happened to a descriptor twice.
  once : h.Pairwise fun d d' => ¬ d.Repeats d'

theorem Listed.mono {n n' : Nat} (hh : Listed h n) (hn : n ≤ n') : Listed h n' :=
  ⟨fun d hd id hid => Nat.lt_of_lt_of_le (hh.known d hd id hid) hn, hh.once⟩

-- One deed more.
theorem Listed.concat {n : Nat} (hh : Listed h n) (hid : ∀ id, d.Concerns id → id < n)
    (hfresh : ∀ d' ∈ h, ¬ d'.Repeats d) : Listed (h ++ [d]) n := by
  refine ⟨fun d' hd' id hc => ?_, List.pairwise_append.mpr ⟨hh.once, List.pairwise_singleton _ _,
    fun d' hd' e he => List.mem_singleton.mp he ▸ hfresh d' hd'⟩⟩
  rcases List.mem_append.mp hd' with hd' | hd'
  · exact hh.known d' hd' id hc
  · exact hid id (List.mem_singleton.mp hd' ▸ hc)

-- Nothing happened to a buffer that does not exist.
theorem Listed.fresh {n : Nat} (hh : Listed h n) (hid : n ≤ id) :
    ∀ d ∈ h, ¬ d.Concerns id :=
  fun d hd hc => absurd (hh.known d hd id hc) (Nat.not_lt.mpr hid)

-- If nothing happens twice, a deed that repeats another is the same deed.
theorem eq_of_repeats (hh : h.Pairwise fun d d' => ¬ d.Repeats d') {d' : Deed} (hd : d ∈ h)
    (hd' : d' ∈ h) (hrepeats : d.Repeats d') : d = d' := by
  have hsymm : Std.Symm fun d d' : Deed => ¬ d.Repeats d' := ⟨fun _ _ hno hr => hno hr.symm⟩
  by_contra hne
  exact hh.forall hd hd' hne hrepeats

-- So what came of a buffer is what is listed.
theorem outcome_eq_some_iff (hh : h.Pairwise fun d d' => ¬ d.Repeats d') :
    outcome id h = some reached ↔ .submitted id reached ∈ h := by
  refine ⟨submitted_of_outcome, fun hd => ?_⟩
  cases ho : outcome id h with
  | none =>
      have hnone := List.findSome?_eq_none_iff.mp ho _ hd
      rw [Deed.outcome?_eq_some.mpr rfl] at hnone
      exact absurd hnone (by simp only [reduceCtorEq, not_false_eq_true])
  | some reached' =>
      have heq := eq_of_repeats hh (submitted_of_outcome ho) hd rfl
      rw [(Deed.submitted.inj heq).2]

/-- What is due was filed, and handed over since. -/
theorem mem_due {d : Sending} :
    d ∈ due tid h ↔
      .filed tid d.id d.block ∈ h ∧ outcome d.id (since tid h) = some d.reached := by
  simp only [due, List.mem_filterMap, Option.map_eq_some_iff]
  constructor
  · rintro ⟨f, hf, reached, ho, rfl⟩
    exact ⟨mem_filings.mp hf, ho⟩
  · rintro ⟨hf, ho⟩
    exact ⟨(d.id, d.block), mem_filings.mpr hf, d.reached, ho, rfl⟩

/-- If nothing happens twice, what was due at a wait is not due again after it. -/
theorem not_due_again {later : List Deed}
    (honce : (h ++ .waited tid :: later).Pairwise fun d d' => ¬ d.Repeats d') {d d' : Sending}
    (hd : d ∈ due tid h) (hd' : d' ∈ due other (h ++ .waited tid :: later)) : d'.id ≠ d.id := by
  rcases mem_due.mp hd with ⟨hfiled, ho⟩
  rcases mem_due.mp hd' with ⟨hfiled', ho'⟩
  have hsubmitted := mem_of_mem_since (submitted_of_outcome ho)
  have hsubmitted' := submitted_of_outcome ho'
  intro heq
  -- A buffer is filed once, so it is the same transaction, and was handed over after the wait.
  have hsame := eq_of_repeats honce hfiled' (List.mem_append_left _ hfiled) (Eq.symm heq)
  rw [(Deed.filed.inj hsame).1] at hsubmitted'
  have hlater := (since_waited_append tid h later).mem hsubmitted'
  exact (List.pairwise_append.mp honce).2.2 _ hsubmitted _ (List.mem_cons_of_mem _ hlater) heq

theorem mem_owed {b : BlockNumber} :
    b ∈ owed h ↔ ∃ tid id, .filed tid id b ∈ since tid h := by
  simp only [owed, List.mem_filterMap]
  constructor
  · rintro ⟨d, _, hd⟩
    cases d with
    | filed tid id block =>
        simp only [Option.ite_none_right_eq_some, Option.some.injEq] at hd
        exact ⟨tid, id, hd.2 ▸ hd.1⟩
    | submitted id reached => exact absurd hd (by simp only [reduceCtorEq, not_false_eq_true])
    | waited tid => exact absurd hd (by simp only [reduceCtorEq, not_false_eq_true])
  · rintro ⟨tid, id, hd⟩
    exact ⟨_, mem_of_mem_since hd, by simp only [hd, if_true]⟩

-- What is known to have come of a buffer once another deed is done.
theorem outcome_since_filed (h : List Deed) (tid other : Tid) (id i : BufferId)
    (block : BlockNumber) :
    outcome i (since tid (h ++ [.filed other id block])) = outcome i (since tid h) := by
  rw [since_concat, if_neg (by simp only [reduceCtorEq, not_false_eq_true]), outcome,
    List.findSome?_append]
  exact Option.or_none

theorem outcome_since_submitted (h : List Deed) (tid : Tid) (id i : BufferId) (reached : Bool) :
    outcome i (since tid (h ++ [.submitted id reached])) =
      (outcome i (since tid h)).or (if id = i then some reached else none) := by
  rw [since_concat, if_neg (by simp only [reduceCtorEq, not_false_eq_true]), outcome,
    List.findSome?_append, List.findSome?_singleton]
  rfl

theorem filings_filed (h : List Deed) (tid other : Tid) (id : BufferId) (block : BlockNumber) :
    filings tid (h ++ [.filed other id block]) =
      filings tid h ++ if other = tid then [(id, block)] else [] := by
  rw [filings, List.filterMap_append]
  by_cases ho : other = tid
  · rw [if_pos ho]
    simp only [List.filterMap_cons, List.filterMap_nil, Deed.filing?, ho, if_true, filings]
  · rw [if_neg ho]
    simp only [List.filterMap_cons, List.filterMap_nil, Deed.filing?, ho, if_false, filings]

/-- Filing a descriptor that nothing was known about makes nothing due. -/
theorem due_filed (hid : ∀ d ∈ h, ¬ d.Concerns id) (tid other : Tid) (block : BlockNumber) :
    due tid (h ++ [.filed other id block]) = due tid h := by
  have hnone : outcome id (since tid h) = none :=
    outcome_eq_none fun d hd => hid d (mem_of_mem_since hd)
  simp only [due, outcome_since_filed, filings_filed, List.filterMap_append]
  split
  · rw [List.filterMap_cons_none (by rw [hnone, Option.map_none]), List.filterMap_nil,
      List.append_nil]
  · rw [List.filterMap_nil, List.append_nil]

/-- Handing over the descriptor that was filed last adds it to what is due to its
    transaction. -/
theorem due_submitted (hid : ∀ d ∈ h, ¬ d.Concerns id) (tid other : Tid) (block : BlockNumber)
    (reached : Bool) :
    due tid (h ++ [.filed other id block] ++ [.submitted id reached]) =
      due tid h ++ if other = tid then [⟨id, block, reached⟩] else [] := by
  have hnone : outcome id (since tid h) = none :=
    outcome_eq_none fun d hd => hid d (mem_of_mem_since hd)
  have hfilings : filings tid (h ++ [.filed other id block] ++ [.submitted id reached]) =
      filings tid (h ++ [.filed other id block]) := by
    rw [filings, List.filterMap_append]
    exact List.append_nil _
  -- The descriptors that were filed before are others.
  have hbefore : ∀ f ∈ filings tid h, f.1 ≠ id := fun f hf heq =>
    hid _ (mem_filings.mp hf) heq
  simp only [due, hfilings, filings_filed, outcome_since_submitted, outcome_since_filed,
    List.filterMap_append]
  refine congrArg₂ _ (List.filterMap_congr fun f hf => ?_) ?_
  · rw [if_neg (Ne.symm (hbefore f hf)), Option.or_none]
  · split
    · rw [List.filterMap_cons_some (by rw [hnone, if_pos rfl]; rfl), List.filterMap_nil]
    · rfl

/-- A wait leaves nothing due to its transaction, and does nothing to the others. -/
theorem due_waited (h : List Deed) (tid other : Tid) :
    due tid (h ++ [.waited other]) = if other = tid then [] else due tid h := by
  have hfilings : filings tid (h ++ [.waited other]) = filings tid h := by
    rw [filings, List.filterMap_append]
    exact List.append_nil _
  rw [due, hfilings, since_concat]
  by_cases ho : other = tid
  · rw [if_pos (congrArg Deed.waited ho), if_pos ho]
    exact List.filterMap_eq_nil_iff.mpr fun f _ => rfl
  · rw [if_neg (fun heq => ho (Deed.waited.inj heq)), if_neg ho]
    refine List.filterMap_congr fun f _ => ?_
    rw [outcome, List.findSome?_append]
    exact congrArg _ Option.or_none

end

/-- A circular log with its books, and the list of what happened to its descriptors. -/
structure Chronicle where
  /-- The log with its books. -/
  books : Ledger
  /-- What happened to its descriptors, oldest first. -/
  history : List Deed
  deriving DecidableEq, Repr

namespace Chronicle

/-- The log after something that is not listed. -/
def setBooks (c : Chronicle) (books : Ledger) : Chronicle := { c with books := books }

/-- List a deed. -/
def note (c : Chronicle) (d : Deed) : Chronicle := { c with history := c.history ++ [d] }

instance : DeviceLog Chronicle where
  setFailing c failing := c.setBooks (DeviceLog.setFailing c.books failing)

instance : LogService Chronicle where
  forget c tid b := (LogService.forget c.books tid b).exchange c.setBooks
  request c := (LogService.request c.books).exchange c.setBooks
  file c tid id b :=
    (LogService.file c.books tid id b).exchange (c.note (.filed tid id b.block)).setBooks
  submit c id b :=
    let reached := (c.books.log.device.write b.block b.data).1.isOk
    (LogService.submit c.books id b).exchange (c.note (.submitted id reached)).setBooks

/-- A log with a chronicle answers like a log. -/
theorem alike : DeviceLog.Alike Chronicle.books :=
  ⟨⟨fun _ _ _ => rfl, fun _ => rfl, fun _ _ _ _ => rfl, fun _ _ _ => rfl⟩, fun _ _ => rfl⟩

end Chronicle

/-- What an operation does to the descriptors of a log from outside the journal. -/
def RingOp.deeds : RingOp → List Deed
  | .wait tid => [.waited tid]
  | .call _ | .commitAmid .. | .request | .release _ | .setFailing _ | .abort => []

namespace Mount

/-- A mount whose log begins to keep a chronicle. -/
def chronicled (m : Mount RingLog) : Mount Chronicle := m.booked.exchange (⟨·, []⟩)

/-- The mount without the chronicle. -/
def unchronicled (m : Mount Chronicle) : Mount Ledger := m.exchange Chronicle.books

/-- A mount with a chronicle after an operation. -/
def chronicleOp (m : Mount Chronicle) : RingOp → Mount Chronicle
  | .call c => m.after c
  | .commitAmid tid strikes last => (m.commitAmid tid strikes last).2
  | .request => m.request.2
  | op => (m.unchronicled.bookOp op).exchange (⟨·, m.log.history ++ op.deeds⟩)

/-- A mount with a chronicle after some operations. -/
def chronicleOps (m : Mount Chronicle) (ops : List RingOp) : Mount Chronicle :=
  ops.foldl chronicleOp m

theorem chronicleOps_append (m : Mount Chronicle) (ops : List RingOp) (op : RingOp) :
    m.chronicleOps (ops ++ [op]) = (m.chronicleOps ops).chronicleOp op :=
  List.foldl_append

-- Keeping a chronicle changes nothing.
theorem unchronicled_chronicleOp (m : Mount Chronicle) (op : RingOp) :
    (m.chronicleOp op).unchronicled = m.unchronicled.bookOp op := by
  cases op with
  | call c => exact (after_exchange Chronicle.alike.toAlike m c).symm
  | commitAmid tid strikes last =>
      exact (congrArg Prod.snd (commitAmid_exchange Chronicle.alike m tid strikes last)).symm
  | request => exact (congrArg Prod.snd (request_exchange Chronicle.alike.toAlike m)).symm
  | wait tid => rfl
  | release count => rfl
  | setFailing failing => rfl
  | abort => rfl

/-- A run with a chronicle is the run without it. -/
theorem unchronicled_chronicleOps (m : Mount RingLog) (ops : List RingOp) :
    (m.chronicled.chronicleOps ops).unchronicled.unbooked = m.runOps ops := by
  induction ops using List.reverseRecOn with
  | nil => rfl
  | append_singleton ops op ih =>
      rw [chronicleOps_append, unchronicled_chronicleOp, unbooked_bookOp, ih, runOps_append]

/-- Blocks may be released if none of them has a descriptor whose transaction was not
    waited for since it was filed. -/
def Retires (m : Mount Chronicle) : RingOp → Prop
  | .release count => ∀ b ∈ m.log.books.taken.take count, b ∉ owed m.log.history
  | .call _ | .commitAmid .. | .request | .wait _ | .setFailing _ | .abort => True

instance (m : Mount Chronicle) (op : RingOp) : Decidable (m.Retires op) :=
  match op with
  | .release count =>
      inferInstanceAs (Decidable (∀ b ∈ m.log.books.taken.take count, b ∉ owed m.log.history))
  | .call _ | .commitAmid .. | .request | .wait _ | .setFailing _ | .abort => .isTrue trivial

/-- A run in which blocks are released only after they were waited for. -/
def Careful : Mount Chronicle → List RingOp → Prop
  | _, [] => True
  | m, op :: ops => m.Retires op ∧ (m.chronicleOp op).Careful ops

/-- It can be told of a run. -/
def decideCareful : (m : Mount Chronicle) → (ops : List RingOp) → Decidable (m.Careful ops)
  | _, [] => .isTrue trivial
  | m, op :: ops =>
      have := (m.chronicleOp op).decideCareful ops
      inferInstanceAs (Decidable (m.Retires op ∧ (m.chronicleOp op).Careful ops))

instance (m : Mount Chronicle) (ops : List RingOp) : Decidable (m.Careful ops) :=
  m.decideCareful ops

theorem careful_append (m : Mount Chronicle) (ops ops' : List RingOp) :
    m.Careful (ops ++ ops') ↔ m.Careful ops ∧ (m.chronicleOps ops).Careful ops' := by
  induction ops generalizing m with
  | nil => exact ⟨fun h => ⟨trivial, h⟩, And.right⟩
  | cons op ops ih =>
      change _ ∧ (m.chronicleOp op).Careful (ops ++ ops') ↔ _
      rw [ih, ← and_assoc]
      rfl

end Mount

end BlockJournal
