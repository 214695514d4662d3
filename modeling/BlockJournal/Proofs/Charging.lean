import BlockJournal.Proofs.Retry
import BlockJournal.Proofs.Table.Mapping
import BlockJournal.Recovery

/-!
# What Records Cost

What the operations that create records do to the pool that pays for them.

Records are created one by one, by `Table.insert`, and each is charged. A
recovery creates many in one call: it tries again where its policy says so and
goes on with the next entry of a descriptor. However long such a call is, what
it does to the pool is the sum of its attempts. `Pool.Charged` counts the
attempts by what came of them, and is closed under composition, so each
operation that calls another adds up what the other did.

The number of refusals can be read off from outside: a call reports each wait,
and it waits after every refusal but one that it gives up on, which its answer
tells. `refusals` is that count, and it does not look at the pool.

## Main definitions

* `Pool.Charged`: A pool after a number of charges and refusals.
* `Event.isWait`, `waitsIn`, `Stop.givesUp`, `refusals`: The refusals a call tells of.
* `Recovery.Enlarged`: A recovery after a call that can only add records.
* `Recovery.attempts`, `Recovery.attempted`: The attempts at one record.

## Theorems

* `Pool.charged_of_ok`, `Pool.charged_of_error`: One charge.
* `Table.insert_charged`: One record.
* `Recovery.insert_cases`, `Recovery.insert_outcome`, `Recovery.insert_enlarged`: One record
  under a policy.
* `Recovery.add_enlarged`, `Recovery.addAll_enlarged`, `Recovery.scanBlock_enlarged`,
  `Recovery.scan_enlarged`: What is built from it.
-/

namespace BlockJournal

namespace Pool

/-- A pool after a number of records were charged to it and a number of charges were
    refused. -/
structure Charged (p : Pool) (added refused : Nat) (p' : Pool) : Prop where
  limit_eq : p'.limit = p.limit
  inUse_eq : p'.inUse = p.inUse + added
  failures_eq : p'.failures = p.failures + UInt64.ofNat refused
  -- The pool is at its fullest now, unless it was fuller before.
  highWater_eq : p.inUse ≤ p.highWater → p'.highWater = max p.highWater p'.inUse
  inUse_le : p.inUse ≤ p.capacity → p'.inUse ≤ p'.capacity
  overdrawn_eq : p'.overdrawn = p.overdrawn

theorem capacity_eq {p p' : Pool} (h : p'.limit = p.limit) : p'.capacity = p.capacity := by
  rw [capacity, capacity, h]

theorem Charged.refl (p : Pool) : p.Charged 0 0 p :=
  ⟨rfl, rfl, (UInt64.add_zero _).symm, fun h => (Nat.max_eq_left h).symm, id, rfl⟩

theorem Charged.trans {p p' p'' : Pool} {added refused added' refused' : Nat}
    (h : p.Charged added refused p') (h' : p'.Charged added' refused' p'') :
    p.Charged (added + added') (refused + refused') p'' := by
  refine ⟨h'.limit_eq.trans h.limit_eq, ?_, ?_, fun hmark => ?_, h'.inUse_le ∘ h.inUse_le,
    h'.overdrawn_eq.trans h.overdrawn_eq⟩
  · rw [h'.inUse_eq, h.inUse_eq, Nat.add_assoc]
  · rw [h'.failures_eq, h.failures_eq, UInt64.ofNat_add, UInt64.add_assoc]
  · -- More is in use after the second part than after the first.
    have hmark' := h.highWater_eq hmark
    have hfirst := h'.inUse_eq
    have hsecond := h'.highWater_eq (by omega)
    omega

theorem charged_of_ok {p p' : Pool} (h : p.charge = (.ok (), p')) : p.Charged 1 0 p' := by
  unfold charge at h
  by_cases hc : p.inUse < p.capacity
  · rw [if_pos hc] at h
    injection h with _ h
    rw [← h]
    exact ⟨rfl, rfl, (UInt64.add_zero _).symm, fun _ => rfl, fun _ => hc, rfl⟩
  · rw [if_neg hc] at h
    exact absurd h (by simp only [Prod.mk.injEq, reduceCtorEq, false_and, not_false_eq_true])

theorem charged_of_error {p p' : Pool} {e : Error} (h : p.charge = (.error e, p')) :
    p.Charged 0 1 p' ∧ e = .poolExhausted p.inUse := by
  unfold charge at h
  by_cases hc : p.inUse < p.capacity
  · rw [if_pos hc] at h
    exact absurd h (by simp only [Prod.mk.injEq, reduceCtorEq, false_and, not_false_eq_true])
  · rw [if_neg hc] at h
    injection h with he h
    rw [← h]
    exact ⟨⟨rfl, rfl, rfl, fun hmark => (Nat.max_eq_left hmark).symm, id, rfl⟩,
      (Except.error.inj he).symm⟩

end Pool

/-- An insertion adds one record that the pool has paid for, or it changes nothing but the
    number of refusals. -/
theorem Table.insert_charged (t : Table) (p : Pool) (block : BlockNumber) (sequence : Tid) :
    (∃ h p', t.insert p block sequence = (.ok h, t.pushed block sequence, p') ∧
      p.Charged 1 0 p') ∨
    (∃ used p', t.insert p block sequence = (.error (.poolExhausted used), t, p') ∧
      p.Charged 0 1 p') := by
  rcases hc : p.charge with ⟨e | ⟨⟩, p'⟩
  · rcases Pool.charged_of_error hc with ⟨hcharged, he⟩
    exact Or.inr ⟨_, p', by rw [insert_eq, hc, he], hcharged⟩
  · exact Or.inl ⟨_, p', by rw [insert_eq, hc], Pool.charged_of_ok hc⟩

/-- The test that a report is of a wait for a record. -/
def Event.isWait : Event → Bool
  | allocationRetry .. => true
  | _ => false

/-- The number of waits for a record among some reports. -/
def waitsIn (trace : Array Event) : Nat := trace.toList.countP Event.isWait

theorem waitsIn_append (trace : Array Event) (waits : List Wait) :
    waitsIn (trace ++ (waits.map Wait.event).toArray) = waitsIn trace + waits.length := by
  have hall : waits.countP (Event.isWait ∘ Wait.event) = waits.length :=
    List.countP_eq_length.mpr fun _ _ => rfl
  rw [waitsIn, Array.toList_append, List.countP_append, List.countP_map, hall]
  rfl

theorem waitsIn_push (trace : Array Event) {e : Event} (he : e.isWait = false) :
    waitsIn (trace.push e) = waitsIn trace := by
  rw [waitsIn, Array.toList_push, List.countP_append, List.countP_singleton, he]
  rfl

/-- The test that an operation stopped since it could not have a record. -/
def Stop.givesUp : Stop → Bool
  | .failed (.poolExhausted _) | .stalled => true
  | _ => false

/-- The number of refused attempts at a record that an operation tells of: one for each wait
    among its reports, and one more if it gave up. -/
def refusals {α : Type} (result : Except Stop α) (trace : Array Event) : Nat :=
  match result with
  | .error stop => waitsIn trace + if stop.givesUp then 1 else 0
  | .ok _ => waitsIn trace

namespace Recovery

/-- A recovery after a call that can only add records, with the answer of the call. -/
structure Enlarged {α : Type} (r : Recovery) (result : Except Stop α) (r' : Recovery) : Prop where
  wellFormed : r'.table.WellFormed
  -- The pool has paid for what was added and has counted what it refused.
  paid : ∃ added refused, r'.table.len = r.table.len + added ∧
    refusals result r'.trace = waitsIn r.trace + refused ∧ r.pool.Charged added refused r'.pool

variable {r : Recovery}

-- A call that leaves the pool and the number of records as they are.
theorem Enlarged.of_table {α : Type} {t : Table} (hw : t.WellFormed) (hlen : t.len = r.table.len)
    (a : α) : r.Enlarged (.ok a) { r with table := t } :=
  ⟨hw, 0, 0, hlen, rfl, Pool.Charged.refl r.pool⟩

-- One call after another that came to its end.
theorem Enlarged.trans {α β : Type} {r' r'' : Recovery} {a : α} {result : Except Stop β}
    (h : r.Enlarged (.ok a) r') (h' : r'.Enlarged result r'') : r.Enlarged result r'' := by
  rcases h.paid with ⟨added, refused, hlen, htold, hcharged⟩
  rcases h'.paid with ⟨added', refused', hlen', htold', hcharged'⟩
  refine ⟨h'.wellFormed, added + added', refused + refused', ?_, ?_, hcharged.trans hcharged'⟩
  · rw [hlen', hlen, Nat.add_assoc]
  · rw [htold', ← Nat.add_assoc, ← htold]
    rfl

-- What came of a call can be told in other words and with other reports, as long as the
-- refusals are the same.
theorem Enlarged.retold {α β : Type} {r' r'' : Recovery} {result : Except Stop α}
    {result' : Except Stop β} (h : r.Enlarged result r') (htable : r''.table = r'.table)
    (hpool : r''.pool = r'.pool) (htold : refusals result' r''.trace = refusals result r'.trace) :
    r.Enlarged result' r'' := by
  refine ⟨by rw [htable]; exact h.wellFormed, ?_⟩
  rw [htable, hpool, htold]
  exact h.paid

/-- The attempts at adding a record, under the policy of a recovery. -/
def attempts (r : Recovery) (block : BlockNumber) (sequence : Tid) :
    Retried (Table × Pool) Handle :=
  retry r.policy Journal.patience (fun tp => tp.1.insert tp.2 block sequence) (r.table, r.pool)

/-- A recovery after some attempts. -/
def attempted (r : Recovery) (done : Retried (Table × Pool) Handle) : Recovery :=
  { r with
    table := done.state.1
    pool := done.state.2
    trace := r.trace ++ (done.waits.map Wait.event).toArray }

-- What is answered follows from what came of the attempts.
theorem insert_cases (r : Recovery) (block : BlockNumber) (sequence : Tid) :
    let done := r.attempts block sequence
    (done.result = none ∧ r.insert block sequence = (.error .stalled, r.attempted done)) ∨
    (∃ e, done.result = some (.error e) ∧
      r.insert block sequence = (.error (.failed e), r.attempted done)) ∨
    (∃ h, done.result = some (.ok h) ∧ r.insert block sequence = (.ok (), r.attempted done)) := by
  intro done
  unfold Recovery.insert
  rcases hr : done.result with _ | e | h
  all_goals change (retry _ _ (fun tp : Table × Pool => tp.1.insert tp.2 block sequence) _).result =
    _ at hr
  · exact Or.inl ⟨rfl, by simp only [hr]; rfl⟩
  · exact Or.inr (Or.inl ⟨e, rfl, by simp only [hr]; rfl⟩)
  · exact Or.inr (Or.inr ⟨h, rfl, by simp only [hr]; rfl⟩)

/-- One record, under the policy of a recovery. Every refused attempt leaves the table as it
    was, so in the end it has the record, or the call gives up and the table is as it was. -/
theorem insert_outcome (r : Recovery) (block : BlockNumber) (sequence : Tid) :
    let done := r.attempts block sequence
    (∃ p, done.state = (r.table.pushed block sequence, p) ∧
      r.insert block sequence = (.ok (), r.attempted done) ∧
      r.pool.Charged 1 done.waits.length p) ∨
    (∃ (stop : Stop) (p : Pool), done.state = (r.table, p) ∧
      r.insert block sequence = (.error stop, r.attempted done) ∧ stop.givesUp = true ∧
      r.pool.Charged 0 (done.waits.length + 1) p) := by
  intro done
  let op (tp : Table × Pool) := tp.1.insert tp.2 block sequence
  let Kept (refused : Nat) (tp : Table × Pool) : Prop :=
    tp.1 = r.table ∧ r.pool.Charged 0 refused tp.2
  have hkept : ∀ n tp e, Kept n tp → (op tp).1 = .error e → Kept (n + 1) (op tp).2 := by
    rintro n ⟨t, p⟩ e ⟨rfl, hcharged⟩ he
    rcases r.table.insert_charged p block sequence with ⟨h, p', heq, _⟩ | ⟨used, p', heq, hone⟩
    · simp only [op, heq, reduceCtorEq] at he
    · simp only [op, heq]
      exact ⟨rfl, hcharged.trans hone⟩
  have hstart : Kept 0 (r.table, r.pool) := ⟨rfl, Pool.Charged.refl _⟩
  rcases @retry_counted _ _ r.policy op Kept Journal.patience hkept _ hstart with
    ⟨⟨t, p⟩, ⟨rfl, hcharged⟩, hstate, hsome, hnone⟩
  change r.pool.Charged 0 done.waits.length p at hcharged
  change done.state = _ at hstate
  change ∀ result, done.result = some result → _ at hsome
  change done.result = none → _ at hnone
  -- Everything is to be read off from the last attempt.
  rcases r.table.insert_charged p block sequence with ⟨h, p', heq, hone⟩ | ⟨used, p', heq, hone⟩
  · simp only [op, heq] at hstate hsome hnone
    rcases r.insert_cases block sequence with ⟨hr, hinsert⟩ | ⟨e, hr, hinsert⟩ | ⟨_, _, hinsert⟩
    · rcases hnone hr with ⟨e, he⟩
      exact absurd he (by simp only [reduceCtorEq, not_false_eq_true])
    · exact absurd (hsome _ hr) (by simp only [reduceCtorEq, not_false_eq_true])
    · exact Or.inl ⟨p', hstate, hinsert, Nat.zero_add 1 ▸ hcharged.trans hone⟩
  · simp only [op, heq] at hstate hsome
    refine Or.inr ?_
    rcases r.insert_cases block sequence with ⟨_, hinsert⟩ | ⟨e, hr, hinsert⟩ | ⟨h, hr, hinsert⟩
    · exact ⟨.stalled, p', hstate, hinsert, rfl, hcharged.trans hone⟩
    · refine ⟨.failed e, p', hstate, hinsert, ?_, hcharged.trans hone⟩
      rw [Except.error.inj (hsome _ hr)]
      rfl
    · exact absurd (hsome _ hr) (by simp only [reduceCtorEq, not_false_eq_true])

theorem insert_enlarged (hw : r.table.WellFormed) (block : BlockNumber) (sequence : Tid) :
    r.Enlarged (r.insert block sequence).1 (r.insert block sequence).2 := by
  rcases r.insert_outcome block sequence with
    ⟨p, hstate, hinsert, hcharged⟩ | ⟨stop, p, hstate, hinsert, hstop, hcharged⟩
  · rw [hinsert, attempted, hstate]
    exact ⟨Table.wellFormed_pushed hw block sequence, 1, _, rfl, waitsIn_append r.trace _, hcharged⟩
  · rw [hinsert, attempted, hstate]
    refine ⟨hw, 0, _, rfl, ?_, hcharged⟩
    rw [refusals, waitsIn_append, hstop, if_pos rfl, Nat.add_assoc]

theorem add_enlarged (hw : r.table.WellFormed) (block : BlockNumber) (sequence : Tid) :
    r.Enlarged (r.add block sequence).1 (r.add block sequence).2 := by
  unfold add
  cases hf : r.table.find block with
  | none => exact insert_enlarged hw block sequence
  | some h =>
      cases hg : r.table.get? h with
      | none =>
          simp only [hg]
          exact Enlarged.of_table hw rfl ()
      | some found =>
          -- The record gets the later transaction, which costs nothing.
          by_cases ha : sequence.isAfter found.sequence = true
          · simp only [hg, if_pos ha]
            exact Enlarged.of_table (Table.wellFormed_set hw h sequence) rfl ()
          · simp only [hg, if_neg ha]
            exact Enlarged.of_table hw rfl ()

theorem addAll_enlarged (sequence : Tid) : ∀ (blocks : List BlockNumber) {r : Recovery},
    r.table.WellFormed → r.Enlarged (r.addAll sequence blocks).1 (r.addAll sequence blocks).2
  | [], _, hw => Enlarged.of_table hw rfl ()
  | block :: rest, r, hw => by
      have hfirst := add_enlarged hw block sequence
      rcases hadd : r.add block sequence with ⟨stop | ⟨⟩, r'⟩
      · simpa only [addAll, hadd] using hfirst
      · rw [hadd] at hfirst
        simpa only [addAll, hadd] using hfirst.trans (addAll_enlarged sequence rest hfirst.wellFormed)

theorem scanBlock_enlarged (hw : r.table.WellFormed) (logBlock : BlockNumber) (data : Bytes) :
    r.Enlarged (r.scanBlock logBlock data).1 (r.scanBlock logBlock data).2 := by
  cases hp : RevokeBlock.parse data r.width with
  | error e =>
      simp only [scanBlock, hp]
      refine (Enlarged.of_table hw rfl ()).retold rfl rfl ?_
      exact waitsIn_push r.trace rfl
  | ok parsed =>
      have hall := addAll_enlarged parsed.sequence parsed.blocks hw
      rcases hadd : r.addAll parsed.sequence parsed.blocks with ⟨stop | ⟨⟩, r'⟩
      · rw [hadd] at hall
        simp only [scanBlock, hp, hadd]
        exact hall.retold rfl rfl rfl
      · rw [hadd] at hall
        simp only [scanBlock, hp, hadd]
        refine hall.retold rfl rfl ?_
        exact waitsIn_push r'.trace rfl

theorem scan_enlarged : ∀ (blocks : List (BlockNumber × Bytes)) {r : Recovery},
    r.table.WellFormed → r.Enlarged (r.scan blocks).1 (r.scan blocks).2
  | [], _, hw => Enlarged.of_table hw rfl ()
  | (logBlock, data) :: rest, r, hw => by
      by_cases hrevoke : isRevokeBlock data = true
      · have hfirst := scanBlock_enlarged hw logBlock data
        rcases hblock : r.scanBlock logBlock data with ⟨stop | entries, r'⟩
        · rw [hblock] at hfirst
          simp only [scan, if_pos hrevoke, hblock]
          exact hfirst.retold rfl rfl rfl
        · rw [hblock] at hfirst
          simpa only [scan, if_pos hrevoke, hblock] using
            hfirst.trans (scan_enlarged rest hfirst.wellFormed)
      · -- A block of another kind is counted, and nothing else.
        simp only [scan, if_neg hrevoke]
        have hcounted : r.Enlarged (.ok ())
            { r with stats.otherBlocks := r.stats.otherBlocks + 1 } :=
          (Enlarged.of_table hw rfl ()).retold rfl rfl rfl
        exact hcounted.trans (scan_enlarged rest hcounted.wellFormed)

end Recovery

end BlockJournal
