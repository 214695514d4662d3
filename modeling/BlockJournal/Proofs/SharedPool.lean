import BlockJournal.Proofs.Charging
import BlockJournal.Proofs.Table.Draining
import Mathlib.Data.List.Induction
import Mathlib.Order.Bounds.Basic

/-!
# Sharing a Pool

The accounts of a pool that any number of tables, drains and recoveries share.

A pool does not know who it serves. Whether its accounts are right depends on
what its sharers do: each must be charged for what it gets and must give back
what it frees, once, also where one way of freeing records goes on into
another, as a drain does that is given up or a table that is torn down before
it is empty. `Sharing` is a pool with everybody who shares it, and `Sharing.after`
is what one use of one of them does to all of them.

`Outcome.Settles` says that a use of a sharer is paid for. There are only two
ways to settle: a use adds records that were charged, or gives some back. What
a whole run does follows from that, one use at a time, whatever was used
before: the pool has in use what its sharers hold.

## Main definitions

* `Sharer`: Somebody who holds records of a pool.
* `Outcome`: What a use of a sharer leaves.
* `TableUse`, `DrainUse`, `RecoveryUse`: The uses of each kind of sharer.
* `PoolUse`, `Sharing`, `Sharing.after`, `Sharing.run`: A pool and its sharers at work.
* `Outcome.Settles`: A use that is paid for.
* `Sharing.Balanced`: The accounts are right.

## Theorems

* `TableUse.settles`, `DrainUse.settles`, `RecoveryUse.settles`: Every use is paid for.
* `Sharing.Balanced.after`: A use keeps the accounts right.
* `Sharing.run_balanced`: They are right after every run.
* `Sharing.isGreatest_highWater`: What the high-water mark is.
* `Sharing.run_conserves`: All of it, in terms of the run alone.
-/

namespace BlockJournal

/-- Somebody who holds records of a pool. -/
inductive Sharer where
  /-- A table. -/
  | table (t : Table)
  /-- A table that is being drained. -/
  | drain (d : Drain)
  /-- A recovery. -/
  | recovery (r : Recovery)

namespace Sharer

/-- The table with the records that a sharer holds. -/
def held : Sharer → Table
  | table t => t
  | drain d => d.table
  | recovery r => r.table

/-- The records of a sharer are placed and counted, and no drain has left any behind. -/
def Sound (x : Sharer) : Prop :=
  x.held.WellFormed ∧ ∀ d, x = drain d → d.Behind

theorem sound_table {t : Table} (hw : t.WellFormed) : (table t).Sound :=
  ⟨hw, fun _ h => absurd h (by simp only [reduceCtorEq, not_false_eq_true])⟩

theorem sound_recovery {r : Recovery} (hw : r.table.WellFormed) : (recovery r).Sound :=
  ⟨hw, fun _ h => absurd h (by simp only [reduceCtorEq, not_false_eq_true])⟩

theorem sound_drain {d : Drain} (hw : d.table.WellFormed) (hbehind : d.Behind) :
    (drain d).Sound :=
  ⟨hw, fun _ h => Sharer.drain.inj h ▸ hbehind⟩

end Sharer

/-- What a use of a sharer leaves: the sharer, unless this was its end, the pool, and the
    number of attempts to add a record that were refused. -/
structure Outcome where
  sharer : Option Sharer
  pool : Pool
  refused : Nat

/-- The number of records that are held after a use. -/
def Outcome.holding (o : Outcome) : Nat :=
  match o.sharer with
  | some x => x.held.len
  | none => 0

/-- What can be done with a table. -/
inductive TableUse where
  | insert (block : BlockNumber) (sequence : Tid)
  | remove (h : Handle)
  | set (h : Handle) (sequence : Tid)
  | clear
  | drain
  | drop
  | destroy

/-- What a use of a table leaves. -/
def TableUse.on (build : Build) (t : Table) (p : Pool) : TableUse → Outcome
  | insert block sequence =>
      match t.insert p block sequence with
      | (.ok _, t, p) => ⟨some (.table t), p, 0⟩
      | (.error _, t, p) => ⟨some (.table t), p, 1⟩
  | remove h =>
      match t.remove p h with
      | (_, t, p) => ⟨some (.table t), p, 0⟩
  | set h sequence => ⟨some (.table (t.set h sequence)), p, 0⟩
  | clear =>
      match t.clear p with
      | (t, p) => ⟨some (.table t), p, 0⟩
  | drain => ⟨some (.drain t.drain), p, 0⟩
  | drop => ⟨none, t.discard p, 0⟩
  | destroy => ⟨none, (t.destroy build p).2, 0⟩

/-- What can be done with a drain. -/
inductive DrainUse where
  | next
  | finish

/-- What a use of a drain leaves. -/
def DrainUse.on (d : Drain) (p : Pool) : DrainUse → Outcome
  | next =>
      match d.next p with
      | (_, d, p) => ⟨some (.drain d), p, 0⟩
  | finish =>
      match d.finish p with
      | (t, p) => ⟨some (.table t), p, 0⟩

/-- What can be done with a recovery. -/
inductive RecoveryUse where
  | add (block : BlockNumber) (sequence : Tid)
  | scanBlock (logBlock : BlockNumber) (data : Bytes)
  | scan (blocks : List (BlockNumber × Bytes))
  | clear
  | finish
  | drop

/-- What a call of a recovery leaves. Its reports begin with the call. -/
def Outcome.ofCall {α : Type} (result : Except Stop α × Recovery) : Outcome :=
  ⟨some (.recovery result.2), result.2.pool, refusals result.1 result.2.trace⟩

/-- What a use of a recovery leaves. The table of one that is finished is torn down. -/
def RecoveryUse.on (build : Build) (r : Recovery) (p : Pool) (use : RecoveryUse) : Outcome :=
  let r := { r.withPool p with trace := #[] }
  match use with
  | add block sequence => .ofCall (r.add block sequence)
  | scanBlock logBlock data => .ofCall (r.scanBlock logBlock data)
  | scan blocks => .ofCall (r.scan blocks)
  | clear => ⟨some (.recovery r.clear), r.clear.pool, 0⟩
  | finish =>
      match r.finish with
      | (_, r) => ⟨none, (r.table.destroy build r.pool).2, 0⟩
  | drop => ⟨none, r.discard, 0⟩

/-- What can be done with a pool and those who share it. -/
inductive PoolUse where
  | newTable (hashSize : Nat)
  | newRecovery (hashSize : Nat) (width : RecordWidth) (policy : RetryPolicy)
  | table (i : Nat) (use : TableUse)
  | drain (i : Nat) (use : DrainUse)
  | recovery (i : Nat) (use : RecoveryUse)

/-- A pool with everybody who shares it. -/
structure Sharing where
  /-- Whether broken rules stop a sharer. -/
  build : Build
  /-- The pool. -/
  pool : Pool
  /-- The sharers that are alive. -/
  sharers : List Sharer
  /-- The number of attempts to add a record that were refused so far. -/
  refused : Nat

namespace Sharing

/-- A pool that nobody shares yet. -/
def start (build : Build) (limit : Option Nat) : Sharing := ⟨build, Pool.new limit, [], 0⟩

/-- One more sharer. -/
def join (s : Sharing) (x : Sharer) : Sharing := { s with sharers := s.sharers ++ [x] }

/-- What a use of the sharer at a position leaves. -/
def settle (s : Sharing) (i : Nat) (o : Outcome) : Sharing :=
  { s with
    pool := o.pool
    sharers :=
      match o.sharer with
      | some x => s.sharers.set i x
      | none => s.sharers.eraseIdx i
    refused := s.refused + o.refused }

/-- One use. Nothing comes of it if the sharer is not there or is not of that kind. -/
def after (s : Sharing) : PoolUse → Sharing
  | .newTable hashSize =>
      match Table.create hashSize with
      | .ok t => s.join (.table t)
      | .error _ => s
  | .newRecovery hashSize width policy =>
      match Recovery.create hashSize width policy s.pool with
      | .ok r => s.join (.recovery r)
      | .error _ => s
  | .table i use =>
      match s.sharers[i]? with
      | some (.table t) => s.settle i (use.on s.build t s.pool)
      | _ => s
  | .drain i use =>
      match s.sharers[i]? with
      | some (.drain d) => s.settle i (use.on d s.pool)
      | _ => s
  | .recovery i use =>
      match s.sharers[i]? with
      | some (.recovery r) => s.settle i (use.on s.build r s.pool)
      | _ => s

/-- Several uses, one after the other. -/
def run (s : Sharing) (uses : List PoolUse) : Sharing := uses.foldl after s

/-- The number of records that the sharers hold. -/
def holding (s : Sharing) : Nat := (s.sharers.map fun x => x.held.len).sum

end Sharing

/-- A use of a sharer that held a number of records is paid for, and leaves the sharer in
    order. -/
structure Outcome.Settles (o : Outcome) (held : Nat) (p : Pool) : Prop where
  sound : ∀ x, o.sharer = some x → x.Sound
  limit_eq : o.pool.limit = p.limit
  -- The pool has as many records more or less in use as the sharer holds more or less.
  inUse_eq : o.pool.inUse + held = p.inUse + o.holding
  failures_eq : o.pool.failures = p.failures + UInt64.ofNat o.refused
  highWater_eq : p.inUse ≤ p.highWater → o.pool.highWater = max p.highWater o.pool.inUse
  inUse_le : p.inUse ≤ p.capacity → o.pool.inUse ≤ o.pool.capacity
  overdrawn_eq : o.pool.overdrawn = p.overdrawn

namespace Outcome.Settles

variable {p p' : Pool}

/-- A use that adds records which are charged to the pool. -/
theorem of_charged {x : Sharer} {held added refused : Nat} (hx : x.Sound)
    (hlen : x.held.len = held + added) (h : p.Charged added refused p') :
    Settles ⟨some x, p', refused⟩ held p := by
  refine ⟨fun y hy => Option.some.inj hy ▸ hx, h.limit_eq, ?_, h.failures_eq, h.highWater_eq,
    h.inUse_le, h.overdrawn_eq⟩
  simp only [holding, h.inUse_eq, hlen]
  omega

/-- A use that frees some of the records and gives them back to the pool. -/
theorem of_released {y : Option Sharer} {held freed : Nat} (hy : ∀ x, y = some x → x.Sound)
    (hlen : holding ⟨y, p.release freed, 0⟩ + freed = held) (hpaid : held ≤ p.inUse) :
    Settles ⟨y, p.release freed, 0⟩ held p := by
  have hfreed : freed ≤ p.inUse := by omega
  rw [Pool.release_of_le hfreed] at hlen ⊢
  refine ⟨hy, rfl, ?_, (UInt64.add_zero _).symm, fun hmark => ?_, fun hle => ?_, rfl⟩
  · simp only
    omega
  · exact (Nat.max_eq_left (Nat.le_trans (Nat.sub_le _ _) hmark)).symm
  · exact Nat.le_trans (Nat.sub_le _ _) hle

/-- The end of a sharer, which gives everything back. -/
theorem of_end {held : Nat} (hpaid : held ≤ p.inUse) :
    Settles ⟨none, p.release held, 0⟩ held p :=
  .of_released (fun _ h => absurd h (by simp only [reduceCtorEq, not_false_eq_true]))
    (Nat.zero_add _) hpaid

end Outcome.Settles

-- A table that is torn down gives everything back, whether it was empty or not and whether
-- or not that stops the build.
theorem Table.destroy_pool (build : Build) (t : Table) (p : Pool) :
    (t.destroy build p).2 = p.release t.len := by
  unfold destroy
  cases build.check .nonEmptyTable t.isEmpty with
  | error v => rfl
  | ok held => rfl

theorem TableUse.settles (use : TableUse) (build : Build) {t : Table} (hw : t.WellFormed)
    {p : Pool} (hpaid : t.len ≤ p.inUse) : (use.on build t p).Settles t.len p := by
  cases use with
  | insert block sequence =>
      rcases t.insert_charged p block sequence with ⟨h, p', heq, hc⟩ | ⟨used, p', heq, hc⟩
      · simp only [on, heq]
        exact .of_charged (Sharer.sound_table (Table.wellFormed_pushed hw block sequence)) rfl hc
      · simp only [on, heq]
        exact .of_charged (Sharer.sound_table hw) rfl hc
  | remove h =>
      cases hg : t.get? h with
      | none =>
          simp only [on, Table.remove, hg]
          exact .of_charged (Sharer.sound_table hw) rfl (Pool.Charged.refl p)
      | some r =>
          simp only [on, Table.remove_eq p hg]
          have hlen := (Table.records_removed hg).length_eq
          rw [List.length_cons, ← hw.len_eq, ← (Table.wellFormed_removed hw hg).len_eq] at hlen
          refine .of_released (fun x hx => ?_) hlen.symm hpaid
          exact Option.some.inj hx ▸ Sharer.sound_table (Table.wellFormed_removed hw hg)
  | set h sequence =>
      exact .of_charged (Sharer.sound_table (Table.wellFormed_set hw h sequence)) rfl
        (Pool.Charged.refl p)
  | clear =>
      refine .of_released (fun x hx => ?_) (Nat.zero_add _) hpaid
      exact Option.some.inj hx ▸ Sharer.sound_table (Table.isMap_emptied hw).toWellFormed
  | drain =>
      exact .of_charged (Sharer.sound_drain hw (Drain.behind_drain t)) rfl (Pool.Charged.refl p)
  | drop => exact .of_end hpaid
  | destroy =>
      simp only [on, Table.destroy_pool]
      exact .of_end hpaid

theorem DrainUse.settles (use : DrainUse) {d : Drain} (hw : d.table.WellFormed)
    (hbehind : d.Behind) {p : Pool} (hpaid : d.table.len ≤ p.inUse) :
    (use.on d p).Settles d.table.len p := by
  cases use with
  | next =>
      rcases Drain.next_eq hbehind hw.len_eq p with ⟨d', heq, htaken⟩
      simp only [on, heq]
      have hlen : d'.table.len + min 1 d.table.len = d.table.len := by
        rw [htaken.len_eq]
        omega
      refine .of_released (fun x hx => ?_) hlen hpaid
      exact Option.some.inj hx ▸ Sharer.sound_drain (htaken.wellFormed hw) htaken.behind
  | finish =>
      simp only [on, Drain.finish_eq hbehind hw.len_eq hpaid]
      refine .of_released (fun x hx => ?_) (Nat.zero_add _) hpaid
      exact Option.some.inj hx ▸ Sharer.sound_table (Table.isMap_emptied hw).toWellFormed

-- A call that adds records, made with the pool as the other sharers have left it.
theorem Outcome.settles_ofCall {α : Type} {r : Recovery} {p : Pool} {result : Except Stop α}
    {r' : Recovery} (h : Recovery.Enlarged { r.withPool p with trace := #[] } result r') :
    (Outcome.ofCall (result, r')).Settles r.table.len p := by
  rcases h.paid with ⟨added, refused, hlen, htold, hcharged⟩
  rw [show waitsIn _ = 0 from rfl, Nat.zero_add] at htold
  rw [ofCall, htold]
  exact .of_charged (Sharer.sound_recovery h.wellFormed) hlen hcharged

theorem RecoveryUse.settles (use : RecoveryUse) (build : Build) {r : Recovery}
    (hw : r.table.WellFormed) {p : Pool} (hpaid : r.table.len ≤ p.inUse) :
    (use.on build r p).Settles r.table.len p := by
  have hw' : ({ r.withPool p with trace := #[] } : Recovery).table.WellFormed := hw
  cases use with
  | add block sequence => exact Outcome.settles_ofCall (Recovery.add_enlarged hw' block sequence)
  | scanBlock logBlock data =>
      exact Outcome.settles_ofCall (Recovery.scanBlock_enlarged hw' logBlock data)
  | scan blocks => exact Outcome.settles_ofCall (Recovery.scan_enlarged blocks hw')
  | clear =>
      refine .of_released (fun x hx => ?_) (Nat.zero_add _) hpaid
      exact Option.some.inj hx ▸ Sharer.sound_recovery (Table.isMap_emptied hw).toWellFormed
  | finish =>
      -- The table is cleared first, so tearing it down gives nothing back that was not
      -- given back already.
      have hpool : (RecoveryUse.finish.on build r p) = ⟨none, p.release r.table.len, 0⟩ := rfl
      rw [hpool]
      exact .of_end hpaid
  | drop => exact .of_end hpaid

namespace Sharing

/-- The accounts of a pool agree with what its sharers hold. -/
structure Balanced (s : Sharing) : Prop where
  sound : ∀ x ∈ s.sharers, x.Sound
  inUse_eq : s.pool.inUse = s.holding
  inUse_le : s.pool.inUse ≤ s.pool.capacity
  le_highWater : s.pool.inUse ≤ s.pool.highWater
  failures_eq : s.pool.failures = UInt64.ofNat s.refused
  overdrawn_eq : s.pool.overdrawn = false

/-- What one use does to the limit and to the high-water mark. -/
structure Follows (s s' : Sharing) : Prop where
  balanced : s'.Balanced
  limit_eq : s'.pool.limit = s.pool.limit
  highWater_eq : s'.pool.highWater = max s.pool.highWater s'.pool.inUse

theorem balanced_start (build : Build) (limit : Option Nat) : (start build limit).Balanced := by
  refine ⟨fun x hx => absurd hx List.not_mem_nil, rfl, Nat.zero_le _, Nat.zero_le _, rfl, rfl⟩

variable {s : Sharing}

theorem Balanced.follows_self (hs : s.Balanced) : s.Follows s :=
  ⟨hs, rfl, (Nat.max_eq_left hs.le_highWater).symm⟩

-- Somebody who comes with nothing changes no accounts.
theorem Balanced.join (hs : s.Balanced) {x : Sharer} (hx : x.Sound) (hlen : x.held.len = 0) :
    s.Follows (s.join x) := by
  refine ⟨⟨fun y hy => ?_, ?_, hs.inUse_le, hs.le_highWater, hs.failures_eq, hs.overdrawn_eq⟩,
    rfl, (Nat.max_eq_left hs.le_highWater).symm⟩
  · rcases List.mem_append.mp hy with hold | hnew
    · exact hs.sound y hold
    · exact List.mem_singleton.mp hnew ▸ hx
  · simp only [Sharing.join, holding, List.map_append, List.map_cons, List.map_nil,
      List.sum_append, List.sum_singleton, hlen]
    exact hs.inUse_eq

theorem holding_split {i : Nat} {x : Sharer} (hi : s.sharers[i]? = some x) :
    s.holding = ((s.sharers.take i).map fun y => y.held.len).sum + (x.held.len +
      ((s.sharers.drop (i + 1)).map fun y => y.held.len).sum) := by
  rcases List.getElem?_eq_some_iff.mp hi with ⟨hlt, hx⟩
  rw [holding]
  conv_lhs => rw [← List.take_append_drop i s.sharers, List.drop_eq_getElem_cons hlt, hx]
  rw [List.map_append, List.map_cons, List.sum_append, List.sum_cons]

-- Only what the one sharer holds changes.
theorem holding_settle {i : Nat} {x : Sharer} (hi : s.sharers[i]? = some x) (o : Outcome) :
    (s.settle i o).holding + x.held.len = s.holding + o.holding := by
  rcases List.getElem?_eq_some_iff.mp hi with ⟨hlt, _⟩
  rw [holding_split hi]
  rcases o with ⟨_ | y, p, refused⟩
  · simp only [settle, holding, Outcome.holding, List.eraseIdx_eq_take_drop_succ, List.map_append,
      List.sum_append]
    omega
  · simp only [settle, holding, Outcome.holding, List.set_eq_take_append_cons_drop, if_pos hlt,
      List.map_append, List.map_cons, List.sum_append, List.sum_cons]
    omega

theorem Balanced.len_le (hs : s.Balanced) {i : Nat} {x : Sharer} (hi : s.sharers[i]? = some x) :
    x.held.len ≤ s.pool.inUse := by
  rw [hs.inUse_eq, holding_split hi]
  omega

-- A use that is paid for keeps the accounts right.
theorem Balanced.settle (hs : s.Balanced) {i : Nat} {x : Sharer} (hi : s.sharers[i]? = some x)
    {o : Outcome} (ho : o.Settles x.held.len s.pool) : s.Follows (s.settle i o) := by
  have hmark := ho.highWater_eq hs.le_highWater
  refine ⟨⟨fun y hy => ?_, ?_, ho.inUse_le hs.inUse_le, ?_, ?_, ?_⟩, ho.limit_eq, hmark⟩
  · rcases o with ⟨_ | z, p, refused⟩
    · exact hs.sound y ((List.eraseIdx_subset) hy)
    · rcases List.mem_or_eq_of_mem_set hy with hold | rfl
      · exact hs.sound y hold
      · exact ho.sound y rfl
  · have hheld := holding_settle hi o
    have hpaid := ho.inUse_eq
    have hbefore := hs.inUse_eq
    change o.pool.inUse = _
    omega
  · change o.pool.inUse ≤ o.pool.highWater
    rw [hmark]
    exact Nat.le_max_right _ _
  · change o.pool.failures = UInt64.ofNat (s.refused + o.refused)
    rw [ho.failures_eq, hs.failures_eq, UInt64.ofNat_add]
  · exact ho.overdrawn_eq.trans hs.overdrawn_eq

/-- A use keeps the accounts right, whoever it is a use of. -/
theorem Balanced.after (hs : s.Balanced) (use : PoolUse) : s.Follows (s.after use) := by
  cases use with
  | newTable hashSize =>
      simp only [Sharing.after]
      cases hc : Table.create hashSize with
      | error e => exact hs.follows_self
      | ok t =>
          rcases Table.isMap_create hc with ⟨hm, hnil⟩
          have hlen : t.len = 0 := hm.len_eq.trans (congrArg List.length hnil)
          exact hs.join (Sharer.sound_table hm.toWellFormed) hlen
  | newRecovery hashSize width policy =>
      simp only [Sharing.after, Recovery.create]
      cases hc : Table.create hashSize with
      | error e => exact hs.follows_self
      | ok t =>
          rcases Table.isMap_create hc with ⟨hm, hnil⟩
          have hlen : t.len = 0 := hm.len_eq.trans (congrArg List.length hnil)
          exact hs.join (Sharer.sound_recovery (by exact hm.toWellFormed)) hlen
  | table i use =>
      simp only [Sharing.after]
      rcases hi : s.sharers[i]? with _ | ⟨t⟩ | ⟨d⟩ | ⟨r⟩
      · exact hs.follows_self
      · have hsound := hs.sound _ (List.mem_of_getElem? hi)
        exact hs.settle hi (use.settles s.build hsound.1 (hs.len_le hi))
      · exact hs.follows_self
      · exact hs.follows_self
  | drain i use =>
      simp only [Sharing.after]
      rcases hi : s.sharers[i]? with _ | ⟨t⟩ | ⟨d⟩ | ⟨r⟩
      · exact hs.follows_self
      · exact hs.follows_self
      · have hsound := hs.sound _ (List.mem_of_getElem? hi)
        exact hs.settle hi (use.settles hsound.1 (hsound.2 d rfl) (hs.len_le hi))
      · exact hs.follows_self
  | recovery i use =>
      simp only [Sharing.after]
      rcases hi : s.sharers[i]? with _ | ⟨t⟩ | ⟨d⟩ | ⟨r⟩
      · exact hs.follows_self
      · exact hs.follows_self
      · exact hs.follows_self
      · have hsound := hs.sound _ (List.mem_of_getElem? hi)
        exact hs.settle hi (use.settles s.build hsound.1 (hs.len_le hi))

/-- The accounts are right after every run. -/
theorem run_balanced (hs : s.Balanced) (uses : List PoolUse) :
    (s.run uses).Balanced ∧ (s.run uses).pool.limit = s.pool.limit := by
  induction uses generalizing s with
  | nil => exact ⟨hs, rfl⟩
  | cons use rest ih =>
      have hfirst := hs.after use
      rcases ih hfirst.balanced with ⟨hrun, hlimit⟩
      exact ⟨hrun, hlimit.trans hfirst.limit_eq⟩

/-- The high-water mark of a pool is the most that was in use at any time of a run. -/
theorem isGreatest_highWater (hs : s.Balanced) (hmark : s.pool.highWater = s.pool.inUse)
    (uses : List PoolUse) :
    IsGreatest {n | ∃ before, before <+: uses ∧ n = (s.run before).pool.inUse}
      (s.run uses).pool.highWater := by
  -- The induction is on the end of the run, since the mark moves with the last use.
  induction uses using List.reverseRecOn with
  | nil =>
      refine ⟨⟨[], List.prefix_rfl, hmark⟩, ?_⟩
      rintro n ⟨before, hbefore, rfl⟩
      rw [List.prefix_nil.mp hbefore]
      exact hs.le_highWater
  | append_singleton uses use ih =>
      have hlast : s.run (uses ++ [use]) = (s.run uses).after use := by
        rw [run, List.foldl_append]
        rfl
      have hfollows := (run_balanced hs uses).1.after use
      rw [← hlast] at hfollows
      rcases ih with ⟨⟨before, hbefore, hreached⟩, hupper⟩
      refine ⟨?_, ?_⟩
      · rw [hfollows.highWater_eq]
        rcases Nat.le_total (s.run (uses ++ [use])).pool.inUse (s.run uses).pool.highWater with
          hle | hle
        · rw [Nat.max_eq_left hle]
          exact ⟨before, hbefore.trans (List.prefix_append _ _), hreached⟩
        · rw [Nat.max_eq_right hle]
          exact ⟨uses ++ [use], List.prefix_rfl, rfl⟩
      · rintro n ⟨before', hbefore', rfl⟩
        rcases List.prefix_concat_iff.mp hbefore' with rfl | hearlier
        · exact hfollows.balanced.le_highWater
        · rw [hfollows.highWater_eq]
          exact Nat.le_trans (hupper ⟨before', hearlier, rfl⟩) (Nat.le_max_left _ _)

/-- After every run of any number of tables, drains and recoveries that share a pool, the
    pool has in use what they hold, which they count right; it stays within its limit, marks
    the most that was ever in use, counts every refusal, and was never asked to take back
    more than it had given out. -/
theorem run_conserves (build : Build) (limit : Option Nat) (uses : List PoolUse) :
    let s := (start build limit).run uses
    s.pool.inUse = (s.sharers.map fun x => x.held.len).sum ∧
    (∀ x ∈ s.sharers, x.held.len = x.held.bucketLengths.sum) ∧
    (∀ n, limit = some n → s.pool.inUse ≤ n) ∧
    IsGreatest {n | ∃ before, before <+: uses ∧ n = ((start build limit).run before).pool.inUse}
      s.pool.highWater ∧
    s.pool.failures = UInt64.ofNat s.refused ∧
    s.pool.overdrawn = false := by
  intro s
  have hstart := balanced_start build limit
  rcases run_balanced hstart uses with ⟨hs, hlimit⟩
  refine ⟨hs.inUse_eq, fun x hx => ?_, fun n hn => ?_, isGreatest_highWater hstart rfl uses,
    hs.failures_eq, hs.overdrawn_eq⟩
  · rw [(hs.sound x hx).1.len_eq, Table.length_records]
  · have hle := hs.inUse_le
    rw [Pool.capacity, hlimit] at hle
    change s.pool.inUse ≤ limit.getD _ at hle
    rwa [hn] at hle

/-- Two tables and a recovery share four records. The first table takes three of them and the
    second one the last, so the next insertion is refused. The first table is drained of one
    record, which the recovery gets. The second table removes its record and tries to remove
    it again. A third table is torn down with a record in it. -/
def mixedUses : List PoolUse :=
  [.newTable 1, .newTable 2, .newRecovery 1 .narrow .fail, .table 0 (.insert ⟨5⟩ ⟨1⟩),
    .table 0 (.insert ⟨6⟩ ⟨1⟩), .table 0 (.insert ⟨7⟩ ⟨1⟩), .table 1 (.insert ⟨5⟩ ⟨2⟩),
    .table 1 (.insert ⟨6⟩ ⟨2⟩), .table 0 .drain, .drain 0 .next, .recovery 2 (.add ⟨8⟩ ⟨3⟩),
    .table 1 (.remove ⟨0, 0⟩), .table 1 (.remove ⟨0, 0⟩), .newTable 1,
    .table 3 (.insert ⟨9⟩ ⟨1⟩), .table 3 .destroy]

-- What is in use follows from what is held, in the middle of the drain as well.
theorem run_conserves_mixed :
    ((start .debug (some 4)).run mixedUses).sharers.map (fun x => x.held.len) = [2, 0, 1] ∧
    ((start .debug (some 4)).run mixedUses).pool.inUse = 3 ∧
    IsGreatest {n | ∃ before, before <+: mixedUses ∧
      n = ((start .debug (some 4)).run before).pool.inUse} 4 ∧
    ((start .debug (some 4)).run mixedUses).pool.failures = 1 ∧
    ((start .debug (some 4)).run mixedUses).pool.overdrawn = false := by
  have hheld : ((start .debug (some 4)).run mixedUses).sharers.map (fun x => x.held.len) =
      [2, 0, 1] := by decide +kernel
  have hmark : ((start .debug (some 4)).run mixedUses).pool.highWater = 4 := by decide +kernel
  have hrefused : ((start .debug (some 4)).run mixedUses).refused = 1 := by decide +kernel
  rcases run_conserves .debug (some 4) mixedUses with
    ⟨hsum, _, _, hgreatest, hfailures, hoverdrawn⟩
  rw [hheld] at hsum
  rw [hmark] at hgreatest
  rw [hrefused] at hfailures
  exact ⟨hheld, hsum, hgreatest, hfailures, hoverdrawn⟩

end Sharing

end BlockJournal
