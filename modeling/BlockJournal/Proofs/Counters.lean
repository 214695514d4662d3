import BlockJournal.Proofs.Commit.Accounting

/-!
# Counters

What the counters of a journal say about its table.

A record gets into the table by a revoke that found none of its block, and it
leaves the table by a cancel or by a commit. Each of these counts, at different
places and only if it comes so far, and a commit counts what it wrote and what
it gave up separately. `Counters.Balance` is the book-keeping identity: what came
in is what went out plus what is there. It holds modulo the width of a word,
and for any log, since a log decides only which of the two a record of a commit
is counted as.

## Main definitions

* `Counters.Balance`: What was counted adds up to what the table holds.
* `Mount.RevokeCounted`, `Mount.CancelCounted`: What one revoke and one cancel count.

## Theorems

* `Balance.revoked`, `Balance.cancelled`, `Balance.committed`: What keeps the balance.
* `balanced_after`, `Balanced.run`: Every call keeps it, and so does every run.
* `revoke_counted`, `cancel_counted`: A revoke or a cancel counts once at most.
* `counters_balance`: All of it in every reachable state.
-/

namespace BlockJournal

namespace Counters

/-- Every record that was added was taken back, written or given up since, or is one of
    the `len` records that are there. -/
def Balance (c : Counters) (len : Nat) : Prop :=
  c.revokes = c.cancels + c.recordsWritten + c.recordsDropped + UInt64.ofNat len

variable {c : Counters} {len : Nat}

theorem Balance.revoked (h : c.Balance len) (refreshed : Bool) :
    (c.revoked refreshed).Balance (len + if refreshed then 0 else 1) := by
  cases refreshed with
  | true => exact h
  | false =>
      change c.revokes + 1 = _ + UInt64.ofNat (len + 1)
      rw [h, UInt64.ofNat_add, UInt64.add_assoc]
      rfl

theorem Balance.cancelled {len' : Nat} {removed : Bool} (h : c.Balance len)
    (hlen : len' + (if removed then 1 else 0) = len) : (c.cancelled removed).Balance len' := by
  cases removed with
  | true =>
      change c.revokes = c.cancels + 1 + c.recordsWritten + c.recordsDropped + _
      rw [h, ← hlen, if_pos rfl, UInt64.ofNat_add]
      grind
  | false =>
      rw [← hlen] at h
      exact h

theorem Balance.committed {stats : WriteStats} (h : c.Balance len)
    (htotal : stats.written + stats.dropped = len) : (c.committed stats).Balance 0 := by
  change c.revokes = c.cancels + (c.recordsWritten + UInt64.ofNat stats.written) +
    (c.recordsDropped + UInt64.ofNat stats.dropped) + UInt64.ofNat 0
  rw [h, ← htotal, UInt64.ofNat_add]
  grind

end Counters

namespace Mount

variable {σ : Type} [LogService σ]

/-- What a revoke that succeeds counts: a record it added or one it found, and not both. It
    counts nothing if it was skipped since it had broken a rule. -/
def RevokeCounted (m : Mount σ) (tid : Tid) (block : BlockNumber) (given : Option BufferId) :
    Prop :=
  let c := m.journal.counters
  let c' := (m.revoke tid block given).2.journal.counters
  (m.revoke tid block given).1 = .ok () →
    (¬ m.SignalsTwice block given ∧ ¬ m.journal.table.Holds block ∧
      c' = { c with revokes := c.revokes + 1 }) ∨
    (¬ m.SignalsTwice block given ∧ m.journal.table.Holds block ∧
      c' = { c with refreshed := c.refreshed + 1 }) ∨
    (m.SignalsTwice block given ∧ m.build = .release ∧ c' = c)

omit [LogService σ] in
/-- What a cancel counts: one record it removed, or that it needed no search, or nothing. -/
def CancelCounted (m : Mount σ) (tid : Tid) (id : BufferId) : Prop :=
  let c := m.journal.counters
  let c' := (m.cancel tid id).2.journal.counters
  c' = c ∨ c' = { c with cancels := c.cancels + 1 } ∨
    c' = { c with fastCancels := c.fastCancels + 1 }

theorem revoke_counted {m : Mount σ} (hm : m.journal.table.IsMap) (tid : Tid)
    (block : BlockNumber) (given : Option BufferId) : m.RevokeCounted tid block given := by
  have hcase := revoke_case hm tid block given
  unfold RevokeCounted
  generalize (m.revoke tid block given).1 = result at hcase ⊢
  generalize (m.revoke tid block given).2 = after at hcase ⊢
  intro c c' hok
  cases hcase with
  | refused stop => exact absurd hok (by simp only [reduceCtorEq, not_false_eq_true])
  | skipped _ htwice hbuild hmarks =>
      exact Or.inr (Or.inr ⟨htwice, hbuild, congrArg (fun m => m.journal.counters) hmarks.core_eq⟩)
  | recorded _ table pool counters hunmarked hfits htable hmarks hcore hcounters =>
      have hcounted : c' = c.revoked (m.journal.table.lookup block).isSome :=
        (congrArg (fun m => m.journal.counters) hcore).trans hcounters
      by_cases hb : m.journal.table.Holds block
      · rw [show (m.journal.table.lookup block).isSome = true from hb] at hcounted
        exact Or.inr (Or.inl ⟨not_signalsTwice hunmarked, hb, hcounted⟩)
      · rw [Bool.eq_false_iff.mpr hb] at hcounted
        exact Or.inl ⟨not_signalsTwice hunmarked, hb, hcounted⟩

omit [LogService σ] in
theorem cancel_counted {m : Mount σ} (hm : m.journal.table.IsMap) (tid : Tid) (id : BufferId) :
    m.CancelCounted tid id := by
  have hcase := cancel_case hm tid id
  unfold CancelCounted
  generalize (m.cancel tid id).1 = result at hcase
  generalize (m.cancel tid id).2 = after at hcase ⊢
  cases hcase with
  | fast _ _ counters hclean hresult hmarks hcore hcounters =>
      exact Or.inr (Or.inr ((congrArg (fun m => m.journal.counters) hcore).trans hcounters))
  | searched _ table pool counters hneeded htable hmarks hcore hcounters =>
      have hcounted := (congrArg (fun m => m.journal.counters) hcore).trans hcounters
      by_cases hb : m.journal.table.Holds (m.store.get id).block
      · rw [decide_eq_true hb] at hcounted
        exact Or.inr (Or.inl hcounted)
      · rw [decide_eq_false hb] at hcounted
        exact Or.inl hcounted

/-- The counters of a mount add up to what its table holds. -/
def Balanced (m : Mount σ) : Prop := m.journal.counters.Balance m.journal.table.len

omit [LogService σ] in
-- The pool and the store have no part in it.
theorem Balanced.of_core {m m' : Mount σ} (h : m.Balanced) {pool : Pool} {store : Store}
    (hcore : m'.core = { m.core with pool := pool, store := store }) : m'.Balanced := by
  have htable : m'.journal.table = m.journal.table := congrArg (fun m => m.journal.table) hcore
  have hcounters : m'.journal.counters = m.journal.counters :=
    congrArg (fun m => m.journal.counters) hcore
  rw [Balanced, htable, hcounters]
  exact h

theorem balanced_after_revoke {m : Mount σ} (hm : m.journal.table.IsMap) (h : m.Balanced)
    (tid : Tid) (block : BlockNumber) (given : Option BufferId) :
    (m.revoke tid block given).2.Balanced := by
  have hcase := revoke_case hm tid block given
  generalize (m.revoke tid block given).1 = result at hcase
  generalize (m.revoke tid block given).2 = after at hcase ⊢
  cases hcase with
  | refused stop _ pool htwice hbuild huse hlimit hcore => exact h.of_core hcore
  | skipped _ htwice hbuild hmarks => exact h.of_core hmarks.core_eq
  | recorded _ table pool counters hunmarked hfits htable hmarks hcore hcounters =>
      have htable' : after.journal.table = table := congrArg (fun m => m.journal.table) hcore
      have hcounters' : after.journal.counters = counters :=
        congrArg (fun m => m.journal.counters) hcore
      rw [Balanced, htable', hcounters', hcounters, htable.len_eq hm]
      exact h.revoked _

omit [LogService σ] in
theorem balanced_after_cancel {m : Mount σ} (hm : m.journal.table.IsMap) (h : m.Balanced)
    (tid : Tid) (id : BufferId) : (m.cancel tid id).2.Balanced := by
  have hcase := cancel_case hm tid id
  generalize (m.cancel tid id).1 = result at hcase
  generalize (m.cancel tid id).2 = after at hcase ⊢
  cases hcase with
  | fast _ _ counters hclean hresult hmarks hcore hcounters =>
      have htable : after.journal.table = m.journal.table :=
        congrArg (fun m => m.journal.table) hcore
      have hcounters' : after.journal.counters = counters :=
        congrArg (fun m => m.journal.counters) hcore
      rw [Balanced, htable, hcounters', hcounters]
      exact h
  | searched _ table pool counters hneeded htable hmarks hcore hcounters =>
      have htable' : after.journal.table = table := congrArg (fun m => m.journal.table) hcore
      have hcounters' : after.journal.counters = counters :=
        congrArg (fun m => m.journal.counters) hcore
      have hlen := htable.len_eq hm
      rw [Balanced, htable', hcounters', hcounters]
      exact Counters.Balance.cancelled h (by simpa only [decide_eq_true_eq] using hlen)

theorem balanced_after_commit {m : Mount σ} (hm : m.journal.table.IsMap) (h : m.Balanced)
    (tid : Tid) : (m.commit tid).2.Balanced := by
  have htotal := m.total_commit tid
  rw [← hm.len_eq] at htotal
  rw [Balanced, m.table_commit, m.counters_commit]
  exact Counters.Balance.committed h htotal

/-- Every call keeps the balance. -/
theorem balanced_after {m : Mount σ} (hm : m.journal.table.IsMap) (h : m.Balanced) (c : Call) :
    (m.after c).Balanced := by
  cases c with
  | getOrCreate block => exact h.of_core (m.grows_after rfl).1
  | read device block contended => exact h.of_core (m.grows_after rfl).1
  | detach block size => exact h.of_core (m.grows_after rfl).1
  | evict block => exact h.of_core (m.core_evict block)
  | revoke tid block given => exact balanced_after_revoke hm h tid block given
  | cancel tid id => exact balanced_after_cancel hm h tid id
  | commit tid => exact balanced_after_commit hm h tid

theorem Balanced.run {config : Config} {cache : BlockSize} {m : Mount σ} (h : m.Balanced)
    (hm : m.Sound config cache) (calls : List Call) : (m.run calls).Balanced := by
  induction calls generalizing m with
  | nil => exact h
  -- A call finds the table a map, and leaves it one.
  | cons c calls ih => exact ih (balanced_after hm.isMap h c) (hm.after c)

omit [LogService σ] in
-- A mounted journal has counted nothing.
theorem counters_create {build : Build} {config : Config} {store : Store} {log : σ} {m : Mount σ}
    (hmount : create build config store log = .ok m) : m.journal.counters = {} := by
  unfold create Journal.create at hmount
  cases hcheck : config.check with
  | error e => simp only [hcheck, reduceCtorEq] at hmount
  | ok size =>
      cases htable : Table.create config.revokeHashSize.toNat with
      | error e => simp only [hcheck, htable, reduceCtorEq] at hmount
      | ok table =>
          simp only [hcheck, htable, Except.ok.injEq] at hmount
          rw [← hmount]

/-- Whatever was asked of a journal and whatever its log did, the records it added are those it
    took back, wrote or gave up, and those in its table. A revoke that succeeds counts once, or
    not at all if it was skipped, and a cancel counts once at most. -/
theorem counters_balance {build : Build} {config : Config} {n : Nat} {store : Store} {log : σ}
    {m : Mount σ} (hstore : Store.create n = .ok store)
    (hmount : create build config store log = .ok m) (calls : List Call) :
    let r := m.run calls
    let c := r.journal.counters
    c.revokes = c.cancels + c.recordsWritten + c.recordsDropped +
      UInt64.ofNat r.journal.table.len ∧
    (∀ tid block given, r.RevokeCounted tid block given) ∧
    (∀ tid id, r.CancelCounted tid id) := by
  intro r c
  rcases sound_create hstore hmount with ⟨hsound, hrecords, _⟩
  have hlen : m.journal.table.len = 0 := by
    rw [hsound.isMap.len_eq, hrecords]
    rfl
  have hstart : m.Balanced := by
    rw [Balanced, counters_create hmount, hlen]
    rfl
  have hmap := (hsound.run calls).isMap
  exact ⟨hstart.run hsound calls, fun tid block given => revoke_counted hmap tid block given,
    fun tid id => cancel_counted hmap tid id⟩

end Mount

-- Of eight records that were added the log got four, three were given up, and one is there.
theorem counters_balance_refusingMount :
    let r := (scriptedMount { size := 24, deny := [0], abortSubmit := some 1 }).run
      (sevenRevokes ++ [.commit ⟨5⟩, .revoke ⟨6⟩ (BlockNumber.ofNat 9) none])
    let c := r.journal.counters
    (c.revokes = 8 ∧ c.recordsWritten = 4 ∧ c.recordsDropped = 3 ∧ r.journal.table.len = 1) ∧
      c.revokes = c.cancels + c.recordsWritten + c.recordsDropped +
        UInt64.ofNat r.journal.table.len := by
  intro r c
  have hmount := create_scriptedMount { size := 24, deny := [0], abortSubmit := some 1 }
  refine ⟨by decide +kernel, ?_⟩
  exact (Mount.counters_balance create_smallStore hmount _).1

end BlockJournal
