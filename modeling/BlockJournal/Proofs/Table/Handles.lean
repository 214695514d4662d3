import BlockJournal.Proofs.SharedPool

/-!
# Handles over Time

Where a record is while the table around it changes.

A handle is a position, and what can be done to a table moves very few records: an
insertion goes to the end of a chain, a change of transaction stays where it is, and a
removal moves the last record of one chain into the place of the one that was removed.
`TableEdit.moved` says so for one edit, and `Table.trail` follows a record through
several. `get?_moved` is the step and `get?_trail` the run: a record that nobody touches
is always at the end of its trail.

A handle that is not kept up goes stale only if its record was the last of its chain and
another one of the chain was removed, since every other edit leaves the trail where it
was. A stale handle does no harm by itself: a removal takes out what a look at the same
position would have shown, or nothing.

An edit comes with the pool it is made with, since those who share the pool may have used
it since the last one.

## Main definitions

* `TableEdit`, `TableEdit.on`, `Table.edited`: Edits of a table.
* `TableEdit.Spares`, `TableEdit.Apart`: Edits that do not touch a record.
* `TableEdit.moved`, `Table.trail`: Where a record is after edits.
* `Table.Returned`: A handle that an insertion or a search returned.

## Theorems

* `TableEdit.get?_moved`, `Table.get?_trail`: A record that nobody touches.
* `Table.trail_eq_self`: Edits that leave it where it was.
* `Table.Returned.get?_eq`: What a handle stands for when it is returned.
* `Table.remove_cases`: A removal with any handle.
* `Sharing.handles_hold`: All of it, for the tables of a shared pool.
-/

namespace BlockJournal

-- Two positions in one chain are told apart by their slots.
theorem Handle.slot_ne {h other : Handle} (hne : other ≠ h) (hb : other.bucket = h.bucket) :
    other.slot ≠ h.slot := by
  intro hs
  apply hne
  cases h
  cases other
  simp only at hb hs
  rw [hb, hs]

/-- An edit of a table, with the pool it is made with. -/
inductive TableEdit where
  /-- Insert a record. -/
  | insert (p : Pool) (block : BlockNumber) (sequence : Tid)
  /-- Change the transaction of the record at a position. -/
  | set (h : Handle) (sequence : Tid)
  /-- Remove the record at a position. -/
  | remove (p : Pool) (h : Handle)

namespace TableEdit

/-- A table after an edit. -/
def on (t : Table) : TableEdit → Table
  | insert p block sequence => (t.insert p block sequence).2.1
  | set h sequence => t.set h sequence
  | remove p h => (t.remove p h).2.1

/-- An edit that neither changes nor removes the record at a position. -/
def Spares (h : Handle) : TableEdit → Prop
  | insert .. => True
  | set other _ | remove _ other => other ≠ h

/-- An edit that removes nothing from the bucket of a position and does not change the record
    there. -/
def Apart (h : Handle) : TableEdit → Prop
  | insert .. => True
  | set other _ => other ≠ h
  | remove _ other => other.bucket ≠ h.bucket

/-- Where the record at a position is after an edit that spares it: where it was, unless it was
    the last of its chain and another one of the chain is removed. -/
def moved (t : Table) (h : Handle) : TableEdit → Handle
  | insert .. | set .. => h
  | remove _ other =>
      if (t.get? other).isSome = true ∧ other.bucket = h.bucket ∧
          h.slot + 1 = (t.chain h.bucket).length then other
      else h

end TableEdit

namespace Table

/-- A table after several edits. -/
def edited (t : Table) (edits : List TableEdit) : Table := edits.foldl TableEdit.on t

/-- Where the record at a position is after several edits. -/
def trail (t : Table) (h : Handle) : List TableEdit → Handle
  | [] => h
  | e :: rest => (e.on t).trail (e.moved t h) rest

/-- None of several edits touches the record at a position, wherever it has come to be. -/
def Spared (t : Table) (h : Handle) : List TableEdit → Prop
  | [] => True
  | e :: rest => e.Spares h ∧ (e.on t).Spared (e.moved t h) rest

/-- A handle was returned for a record, and left is the table after the call. -/
inductive Returned (t : Table) (h : Handle) (r : Record) : Table → Prop where
  -- The record was inserted.
  | insert {p p' : Pool} {t' : Table}
      (heq : t.insert p r.block r.sequence = (.ok h, t', p')) : Returned t h r t'
  -- It was searched for, and is the first of its block in the chain.
  | find {block : BlockNumber} (hfind : t.find block = some h)
      (hfirst : (t.chain (t.bucketOf block)).find? (fun r => r.block = block) = some r) :
      Returned t h r t

-- What was in a chain before an insertion is where it was.
theorem chain_prefix_insert (t : Table) (p : Pool) (block : BlockNumber) (sequence : Tid)
    (i : Nat) : t.chain i <+: (t.insert p block sequence).2.1.chain i := by
  rw [insert_eq]
  rcases p.charge with ⟨_ | _, p'⟩
  · exact List.prefix_rfl
  · simp only [pushed, withChain, chain, Array.getD_eq_getD_getElem?, Array.getElem?_modify]
    by_cases hi : t.bucketOf block = i
    · rw [if_pos hi]
      cases t.buckets[i]? with
      | none => exact List.nil_prefix
      | some c => exact List.prefix_append c _
    · rewrite [if_neg hi]
      exact List.prefix_rfl

theorem get?_insert {t : Table} {h : Handle} {r : Record} (hg : t.get? h = some r) (p : Pool)
    (block : BlockNumber) (sequence : Tid) :
    (t.insert p block sequence).2.1.get? h = some r := by
  rcases chain_prefix_insert t p block sequence h.bucket with ⟨added, hchain⟩
  rw [get?] at hg
  rw [get?, ← hchain, List.getElem?_append_left (List.getElem?_eq_some_iff.mp hg).1]
  exact hg

theorem chain_set (t : Table) (h : Handle) (sequence : Tid) (i : Nat) :
    (t.set h sequence).chain i =
      if h.bucket = i then (t.chain i).modify h.slot (fun r => { r with sequence := sequence })
      else t.chain i :=
  chain_of_modify t.buckets h.bucket
    (fun chain => chain.modify h.slot (fun r => { r with sequence := sequence }))
    (List.modify_nil _ _) i

theorem get?_set_of_ne (t : Table) {h other : Handle} (hne : other ≠ h) (sequence : Tid) :
    (t.set other sequence).get? h = t.get? h := by
  rw [get?, get?, chain_set]
  by_cases hb : other.bucket = h.bucket
  · rw [if_pos hb, List.getElem?_modify_ne _ _ (Handle.slot_ne hne hb)]
  · rw [if_neg hb]

-- What a position shows after another one of its chain, or of another, was removed.
theorem get?_removed (t : Table) (h other : Handle) :
    (t.removed other).get? h =
      if other.bucket = h.bucket then (swapRemove (t.chain h.bucket) other.slot)[h.slot]?
      else t.get? h := by
  simp only [get?, removed, withChain, chain]
  rw [chain_of_modify _ _ _ rfl]
  split
  · rfl
  · rfl

end Table

/-- A record that an edit spares is where `moved` says. -/
theorem TableEdit.get?_moved {t : Table} {h : Handle} {r : Record} (hg : t.get? h = some r)
    {e : TableEdit} (he : e.Spares h) : (e.on t).get? (e.moved t h) = some r := by
  cases e with
  | insert p block sequence => exact Table.get?_insert hg p block sequence
  | set other sequence =>
      rw [on, moved, Table.get?_set_of_ne t he]
      exact hg
  | remove p other =>
      cases ho : t.get? other with
      | none =>
          -- Nothing is removed, so nothing moves.
          simp only [on, moved, Table.remove, ho, Option.isSome_none, Bool.false_eq_true, false_and,
            if_false]
          exact hg
      | some removed =>
          simp only [on, moved, Table.remove_eq p ho, ho, Option.isSome_some, true_and]
          by_cases hb : other.bucket = h.bucket
          · have hslot := Handle.slot_ne he hb
            rw [Table.get?, hb] at ho
            rw [Table.get?] at hg
            have hlt := (List.getElem?_eq_some_iff.mp hg).1
            have hother := (List.getElem?_eq_some_iff.mp ho).1
            by_cases hlast : h.slot + 1 = (t.chain h.bucket).length
            · -- The record is the last of its chain and goes where the other one was.
              rw [if_pos ⟨hb, hlast⟩, Table.get?_removed, if_pos rfl, hb, getElem?_swapRemove,
                if_pos (by omega), if_pos rfl, List.getLast?_eq_getElem?, ← hlast,
                Nat.add_sub_cancel]
              exact hg
            · rw [if_neg (fun hc => hlast hc.2), Table.get?_removed, if_pos hb,
                getElem?_swapRemove, if_pos (by omega), if_neg (fun hc => hslot hc.symm)]
              exact hg
          · rw [if_neg (fun hc => hb hc.1), Table.get?_removed, if_neg hb]
            exact hg

theorem TableEdit.Apart.spares {h : Handle} {e : TableEdit} (he : e.Apart h) : e.Spares h := by
  cases e with
  | insert p block sequence => trivial
  | set other sequence => exact he
  | remove p other => exact fun hc => he (by rw [hc])

theorem TableEdit.Apart.moved_eq {t : Table} {h : Handle} {e : TableEdit} (he : e.Apart h) :
    e.moved t h = h := by
  cases e with
  | insert p block sequence => rfl
  | set other sequence => rfl
  | remove p other =>
      rw [TableEdit.moved, if_neg]
      exact fun hc => he hc.2.1

namespace Table

/-- A record that nobody touches is at the end of its trail. -/
theorem get?_trail {t : Table} {h : Handle} {r : Record} (hg : t.get? h = some r)
    {edits : List TableEdit} (hedits : t.Spared h edits) :
    (t.edited edits).get? (t.trail h edits) = some r := by
  induction edits generalizing t h with
  | nil => exact hg
  | cons e rest ih => exact ih (TableEdit.get?_moved hg hedits.1) hedits.2

/-- Edits that remove nothing from the bucket of a record leave it where it was. -/
theorem trail_eq_self {t : Table} {h : Handle} {edits : List TableEdit}
    (hedits : ∀ e ∈ edits, e.Apart h) : t.trail h edits = h ∧ t.Spared h edits := by
  induction edits generalizing t with
  | nil => exact ⟨rfl, trivial⟩
  | cons e rest ih =>
      rcases List.forall_mem_cons.mp hedits with ⟨he, hrest⟩
      rcases @ih (e.on t) hrest with ⟨htrail, hspared⟩
      rw [trail, Spared, he.moved_eq]
      exact ⟨htrail, he.spares, hspared⟩

/-- A handle shows the record that it was returned for. -/
theorem Returned.get?_eq {t t' : Table} {h : Handle} {r : Record} (hw : t.WellFormed)
    (hr : t.Returned h r t') : t'.get? h = some r := by
  cases hr with
  | @insert p p' t' heq =>
      rw [insert_eq] at heq
      rcases hc : p.charge with ⟨_ | _, p''⟩
      · simp only [hc, Prod.mk.injEq, reduceCtorEq, false_and] at heq
      · simp only [hc, Prod.mk.injEq, Except.ok.injEq] at heq
        rcases heq with ⟨rfl, rfl, _⟩
        rw [get?, pushed, chain_withChain (bucketOf_lt hw r.block), if_pos rfl,
          List.getElem?_concat_length]
  | @find block hfind hfirst =>
      rw [List.find?_eq_bind_findIdx?_getElem?] at hfirst
      unfold Table.find at hfind
      cases hslot : (t.chain (t.bucketOf block)).findIdx? (fun r => r.block = block) with
      | none => simp only [hslot, reduceCtorEq] at hfind
      | some slot =>
          simp only [hslot, Option.some.injEq] at hfind
          rw [hslot, Option.bind_some] at hfirst
          rw [← hfind, get?]
          exact hfirst

/-- A removal with any handle finds nothing and changes nothing, or it takes out the one record
    that the handle shows. -/
theorem remove_cases (t : Table) (p : Pool) (h : Handle) :
    (t.get? h = none ∧ t.remove p h = (none, t, p)) ∨
    (∃ r t', t.get? h = some r ∧ t.remove p h = (some r, t', p.release 1) ∧
      t.records.Perm (r :: t'.records)) := by
  cases hg : t.get? h with
  | none => exact Or.inl ⟨rfl, by simp only [remove, hg]⟩
  | some r => exact Or.inr ⟨r, t.removed h, rfl, remove_eq p hg, records_removed hg⟩

end Table

/-- What becomes of handles, in a table to which anything was done before, as to those who
    share its pool.

    A handle that an insertion or a search returned for a record still shows it after any
    insertions, changes of other records and removals from other buckets. If another record
    of its chain is removed then, the handle still shows its record, unless that was the last
    of the chain; then it is where the other one was. And after any edits at all, a removal with
    any handle takes out the record that the handle shows and no other, or it changes
    nothing. -/
theorem Sharing.handles_hold (build : Build) (limit : Option Nat) (uses : List PoolUse) {i : Nat}
    {t : Table} (hi : ((start build limit).run uses).sharers[i]? = some (.table t)) :
    (∀ h r t', t.Returned h r t' → ∀ edits : List TableEdit, (∀ e ∈ edits, e.Apart h) →
      (t'.edited edits).get? h = some r ∧
      ∀ p other, other.bucket = h.bucket → other.slot ≠ h.slot →
        ((t'.edited edits).get? other).isSome = true →
        ((t'.edited edits).remove p other).2.1.get?
          (if h.slot + 1 = ((t'.edited edits).chain h.bucket).length then other else h) = some r) ∧
    ∀ (edits : List TableEdit) p h,
      let u := t.edited edits
      (u.get? h = none ∧ u.remove p h = (none, u, p)) ∨
      (∃ r u', u.get? h = some r ∧ u.remove p h = (some r, u', p.release 1) ∧
        u.records.Perm (r :: u'.records)) := by
  have hs := (run_balanced (balanced_start build limit) uses).1
  have hw : t.WellFormed := (hs.sound _ (List.mem_of_getElem? hi)).1
  refine ⟨fun h r t' hr edits hedits => ?_, fun edits => (t.edited edits).remove_cases⟩
  rcases t'.trail_eq_self hedits with ⟨htrail, hspared⟩
  have hg := Table.get?_trail (hr.get?_eq hw) hspared
  rw [htrail] at hg
  refine ⟨hg, fun p other hbucket hslot hsome => ?_⟩
  have hmoved := TableEdit.get?_moved (e := .remove p other) hg (fun hc => hslot (by rw [hc]))
  simp only [TableEdit.moved, hsome, hbucket, true_and] at hmoved
  exact hmoved

/-- A record is inserted behind two others and another of them changed. It is still where the
    insertion said, and after the removal of one in front of it, it is in the place of that. -/
theorem handles_hold_lastRecord :
    let s := (Sharing.start .debug none).run
      [.newTable 1, .table 0 (.insert ⟨5⟩ ⟨1⟩), .table 0 (.insert ⟨6⟩ ⟨1⟩)]
    ∃ t t', s.sharers[0]? = some (.table t) ∧
      t.insert s.pool ⟨7⟩ ⟨2⟩ = (.ok ⟨0, 2⟩, t', (s.pool.charge).2) ∧
      (t'.set ⟨0, 0⟩ ⟨4⟩).get? ⟨0, 2⟩ = some ⟨⟨7⟩, ⟨2⟩⟩ ∧
      ((t'.set ⟨0, 0⟩ ⟨4⟩).remove s.pool ⟨0, 1⟩).2.1.get? ⟨0, 1⟩ = some ⟨⟨7⟩, ⟨2⟩⟩ ∧
      t.remove s.pool ⟨0, 2⟩ = (none, t, s.pool) := by
  intro s
  let t : Table := ⟨0, #[[⟨⟨5⟩, ⟨1⟩⟩, ⟨⟨6⟩, ⟨1⟩⟩]], 2⟩
  let t' : Table := ⟨0, #[[⟨⟨5⟩, ⟨1⟩⟩, ⟨⟨6⟩, ⟨1⟩⟩, ⟨⟨7⟩, ⟨2⟩⟩]], 3⟩
  have hi : s.sharers[0]? = some (.table t) := by rfl
  have hinsert : t.insert s.pool ⟨7⟩ ⟨2⟩ = (.ok ⟨0, 2⟩, t', (s.pool.charge).2) := by rfl
  rcases Sharing.handles_hold .debug none _ hi with ⟨hhold, hremove⟩
  have hapart : ∀ e ∈ [TableEdit.set ⟨0, 0⟩ ⟨4⟩], e.Apart ⟨0, 2⟩ := by
    rw [List.forall_mem_singleton]
    exact fun hc => absurd hc (by decide)
  rcases hhold ⟨0, 2⟩ ⟨⟨7⟩, ⟨2⟩⟩ t' (.insert hinsert) _ hapart with ⟨hg, hmoved⟩
  refine ⟨t, t', hi, hinsert, hg, hmoved s.pool ⟨0, 1⟩ rfl (by decide) (by rfl), ?_⟩
  rcases hremove [] s.pool ⟨0, 2⟩ with ⟨_, hnone⟩ | ⟨r, _, hsome, _⟩
  · exact hnone
  · have hnone : (t.edited []).get? ⟨0, 2⟩ = none := by rfl
    rw [hnone] at hsome
    exact absurd hsome (by simp only [reduceCtorEq, not_false_eq_true])

end BlockJournal
