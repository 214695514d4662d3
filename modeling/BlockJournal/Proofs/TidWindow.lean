import BlockJournal.Tid
import Mathlib.Data.List.Perm.Basic
import Mathlib.Logic.Function.Iterate

/-!
# Transactions in a Window

The order of transaction ids, for ids that are not too far apart.

The order by distance is no order on all ids, since it goes round in a circle. It
is one on the ids that come less than half the circle after a common start: there
an id is later exactly if it takes more steps to get to it. A run of fewer than
`2 ^ 31` transactions stays inside such a window, wherever it starts and whether or
not its ids wrap.

Inside a window the latest of some ids is the one with the most steps, so it does
not matter in which order they are looked at. `latest_ahead` carries this over from
numbers: taking the later of two ids is taking the larger number of steps.

## Main definitions

* `Tid.ahead`: The id some steps after another.
* `Tid.InLine`: Ids on which the order by distance is an order.

## Theorems

* `isAfter_iff`, `isAtOrAfter_iff`: The order inside a window.
* `compare_ahead`: The comparison of two ids of a window is that of their steps.
* `iterate_next`: Counting up gets to the id that many steps ahead.
* `stepsFrom_iterate`: How far the ids of a run have come.
* `latest_ahead`, `foldl_latest_ahead`: The latest id is the one with the most steps.
* `inLine_of_lt`: The ids of a window are in line.
* `window_order`: All of it for the ids of a window, in any order.
-/

namespace BlockJournal

namespace Tid

-- Distances from a common start add up modulo the circle.
theorem stepsFrom_eq (a b base : Tid) :
    a.stepsFrom b =
      (UInt32.size - b.stepsFrom base + a.stepsFrom base) % UInt32.size := by
  have ha := a.val.toNat_lt
  have hb := b.val.toNat_lt
  have hbase := base.val.toNat_lt
  simp only [stepsFrom, UInt32.toNat_sub, UInt32.size]
  omega

theorem stepsFrom_lt (a b : Tid) : a.stepsFrom b < UInt32.size := UInt32.toNat_lt _

/-- Inside a window an id is later if it has come further. -/
theorem isAfter_iff {a b base : Tid} (ha : a.stepsFrom base < halfCircle)
    (hb : b.stepsFrom base < halfCircle) :
    a.isAfter b = true ↔ b.stepsFrom base < a.stepsFrom base := by
  simp only [isAfter, Bool.and_eq_true, decide_eq_true_eq, stepsFrom_eq a b base]
  simp only [halfCircle, UInt32.size] at ha hb ⊢
  omega

theorem isAtOrAfter_iff {a b base : Tid} (ha : a.stepsFrom base < halfCircle)
    (hb : b.stepsFrom base < halfCircle) :
    a.isAtOrAfter b = true ↔ b.stepsFrom base ≤ a.stepsFrom base := by
  simp only [isAtOrAfter, decide_eq_true_eq, stepsFrom_eq a b base]
  simp only [halfCircle, UInt32.size] at ha hb ⊢
  omega

/-- The id some steps after another, modulo the width of an id. -/
def ahead (base : Tid) (steps : Nat) : Tid := ⟨base.val + UInt32.ofNat steps⟩

-- It takes that many steps to get there, unless they lead round the circle.
theorem stepsFrom_ahead (base : Tid) {n : Nat} (hn : n < UInt32.size) :
    (base.ahead n).stepsFrom base = n := by
  have hbase := base.val.toNat_lt
  simp only [stepsFrom, ahead, UInt32.toNat_sub, UInt32.toNat_add, UInt32.toNat_ofNat',
    UInt32.size] at hn ⊢
  omega

-- Every id is some steps ahead.
theorem ahead_stepsFrom (a base : Tid) : base.ahead (a.stepsFrom base) = a := by
  have hval : base.val + (a.val - base.val) = a.val := by
    rw [UInt32.add_comm, UInt32.sub_add_cancel]
  rw [ahead, stepsFrom, UInt32.ofNat_toNat, hval]

/-- Counting up gets to the id that many steps ahead. -/
theorem iterate_next (base : Tid) (n : Nat) : next^[n] base = base.ahead n := by
  induction n with
  | zero => rw [Function.iterate_zero_apply, ahead, show UInt32.ofNat 0 = 0 from rfl, UInt32.add_zero]
  | succ n ih =>
      rw [Function.iterate_succ_apply', ih]
      simp only [next, ahead, UInt32.ofNat_add, UInt32.add_assoc]
      rfl

/-- After some steps an id is as many steps ahead, until it has gone full circle. -/
theorem stepsFrom_iterate (base : Tid) {n : Nat} (hn : n < UInt32.size) :
    (next^[n] base).stepsFrom base = n := by
  rw [iterate_next, stepsFrom_ahead base hn]

section

variable {base : Tid} {i j : Nat}

theorem lt_size_of_lt (hi : i < halfCircle) : i < UInt32.size :=
  Nat.lt_of_lt_of_le hi (Nat.div_le_self _ _)

theorem stepsFrom_ahead_of_lt (hi : i < halfCircle) : (base.ahead i).stepsFrom base = i :=
  stepsFrom_ahead base (lt_size_of_lt hi)

-- The order of ids that are given by their steps is that of the steps.
theorem isAfter_ahead (hi : i < halfCircle) (hj : j < halfCircle) :
    (base.ahead i).isAfter (base.ahead j) = true ↔ j < i := by
  rw [@isAfter_iff _ _ base (by rwa [stepsFrom_ahead_of_lt hi]) (by rwa [stepsFrom_ahead_of_lt hj]),
    stepsFrom_ahead_of_lt hi, stepsFrom_ahead_of_lt hj]

theorem isAtOrAfter_ahead (hi : i < halfCircle) (hj : j < halfCircle) :
    (base.ahead i).isAtOrAfter (base.ahead j) = true ↔ j ≤ i := by
  rw [@isAtOrAfter_iff _ _ base (by rwa [stepsFrom_ahead_of_lt hi])
    (by rwa [stepsFrom_ahead_of_lt hj]), stepsFrom_ahead_of_lt hi, stepsFrom_ahead_of_lt hj]

theorem ahead_inj (hi : i < halfCircle) (hj : j < halfCircle) :
    base.ahead i = base.ahead j ↔ i = j := by
  refine ⟨fun h => ?_, fun h => by rw [h]⟩
  rw [← @stepsFrom_ahead_of_lt base i hi, h, stepsFrom_ahead_of_lt hj]

theorem compare_ahead (hi : i < halfCircle) (hj : j < halfCircle) :
    (base.ahead i).compare (base.ahead j) = Ord.compare i j := by
  unfold compare
  rcases Nat.lt_trichotomy i j with hlt | rfl | hgt
  · rw [if_neg fun h => Nat.ne_of_lt hlt ((ahead_inj hi hj).mp h),
      if_neg fun h => Nat.lt_asymm hlt ((isAfter_ahead hi hj).mp h), Nat.compare_eq_lt.mpr hlt]
  · rw [if_pos rfl, Nat.compare_eq_eq.mpr rfl]
  · rw [if_neg fun h => Nat.ne_of_gt hgt ((ahead_inj hi hj).mp h),
      if_pos ((isAfter_ahead hi hj).mpr hgt), Nat.compare_eq_gt.mpr hgt]

/-- The later of two ids is the one that takes more steps. -/
theorem latest_ahead (hi : i < halfCircle) (hj : j < halfCircle) :
    (base.ahead i).latest (base.ahead j) = base.ahead (max i j) := by
  unfold latest
  by_cases hlt : i < j
  · rw [if_pos ((isAfter_ahead hj hi).mpr hlt), Nat.max_eq_right (Nat.le_of_lt hlt)]
  · rw [if_neg fun h => hlt ((isAfter_ahead hj hi).mp h), Nat.max_eq_left (Nat.le_of_not_lt hlt)]

/-- So the latest of some ids is the one that takes the most. -/
theorem foldl_latest_ahead (hi : i < halfCircle) {steps : List Nat}
    (hsteps : ∀ k ∈ steps, k < halfCircle) :
    (steps.map base.ahead).foldl latest (base.ahead i) = base.ahead (steps.foldl max i) := by
  induction steps generalizing i with
  | nil => rfl
  | cons k steps ih =>
      have hk := hsteps k List.mem_cons_self
      rw [List.map_cons, List.foldl_cons, List.foldl_cons, latest_ahead hi hk]
      exact ih (Nat.max_lt.mpr ⟨hi, hk⟩) fun k hk => hsteps k (List.mem_cons_of_mem _ hk)

end

/-- Ids on which the order by distance is an order, and the later of two ids their join. -/
structure InLine (ids : List Tid) : Prop where
  irrefl : ∀ a ∈ ids, a.isAfter a = false
  trans : ∀ a ∈ ids, ∀ b ∈ ids, ∀ c ∈ ids,
    a.isAfter b = true → b.isAfter c = true → a.isAfter c = true
  total : ∀ a ∈ ids, ∀ b ∈ ids, a.isAfter b = true ∨ a = b ∨ b.isAfter a = true
  compare_swap : ∀ a ∈ ids, ∀ b ∈ ids, b.compare a = (a.compare b).swap
  latest_self : ∀ a ∈ ids, a.latest a = a
  latest_comm : ∀ a ∈ ids, ∀ b ∈ ids, a.latest b = b.latest a
  latest_assoc : ∀ a ∈ ids, ∀ b ∈ ids, ∀ c ∈ ids, (a.latest b).latest c = a.latest (b.latest c)

/-- The ids of a window are in line, since their steps are. -/
theorem inLine_of_lt (base : Tid) {steps : List Nat} (hlt : ∀ k ∈ steps, k < halfCircle) :
    InLine (steps.map base.ahead) := by
  -- What holds of the ids that some steps lead to holds of the ids of the window.
  have hall : ∀ {P : Tid → Prop}, (∀ i, i < halfCircle → P (base.ahead i)) →
      ∀ a ∈ steps.map base.ahead, P a :=
    fun h => List.forall_mem_map.mpr fun i hi => h i (hlt i hi)
  refine ⟨hall fun i hi => ?_, hall fun i hi => hall fun j hj => hall fun k hk => ?_,
    hall fun i hi => hall fun j hj => ?_, hall fun i hi => hall fun j hj => ?_,
    hall fun i hi => ?_, hall fun i hi => hall fun j hj => ?_,
    hall fun i hi => hall fun j hj => hall fun k hk => ?_⟩
  · rw [Bool.eq_false_iff, ne_eq, isAfter_ahead hi hi]
    exact Nat.lt_irrefl i
  · rw [isAfter_ahead hi hj, isAfter_ahead hj hk, isAfter_ahead hi hk]
    exact fun hij hjk => Nat.lt_trans hjk hij
  · rw [isAfter_ahead hi hj, isAfter_ahead hj hi, ahead_inj hi hj]
    omega
  · rw [compare_ahead hi hj, compare_ahead hj hi, Nat.compare_swap]
  · rw [latest_ahead hi hi, Nat.max_self]
  · rw [latest_ahead hi hj, latest_ahead hj hi, Nat.max_comm]
  · rw [latest_ahead hi hj, latest_ahead (Nat.max_lt.mpr ⟨hi, hj⟩) hk, latest_ahead hj hk,
      latest_ahead hi (Nat.max_lt.mpr ⟨hj, hk⟩), Nat.max_assoc]

-- Whichever id one starts from, and in whichever order the others follow, one ends at the
-- id with the most steps.
theorem foldl_latest_of_perm {base : Tid} {steps : List Nat}
    (hlt : ∀ k ∈ steps, k < halfCircle) {first : Tid} {rest : List Tid}
    (horder : (first :: rest).Perm (steps.map base.ahead)) {most : Nat} (hmost : most ∈ steps)
    (hle : ∀ k ∈ steps, k ≤ most) : rest.foldl latest first = base.ahead most := by
  let start := first.stepsFrom base
  let others := rest.map (·.stepsFrom base)
  have hback : (steps.map base.ahead).map (·.stepsFrom base) = steps := by
    rw [List.map_map]
    exact (List.map_congr_left fun k hk => stepsFrom_ahead_of_lt (hlt k hk)).trans (List.map_id _)
  have hperm : (start :: others).Perm steps := by
    have hsteps := horder.map (·.stepsFrom base)
    rwa [hback] at hsteps
  have hfirst : first = base.ahead start := (ahead_stepsFrom first base).symm
  have hrest : rest = others.map base.ahead := by
    rw [List.map_map]
    exact (List.map_id'' (fun a => ahead_stepsFrom a base) rest).symm
  have hmax : (start :: others).max? = some most :=
    List.max?_eq_some_iff.mpr ⟨hperm.mem_iff.mpr hmost, fun k hk => hle k (hperm.mem_iff.mp hk)⟩
  rw [List.max?_cons', Option.some.injEq] at hmax
  rw [hfirst, hrest, foldl_latest_ahead (hlt _ (hperm.mem_iff.mp List.mem_cons_self))
    fun k hk => hlt k (hperm.mem_iff.mp (List.mem_cons_of_mem _ hk)), hmax]

/-- Some ids that come less than half the circle after a common start are ordered like the
    numbers of their steps, whatever the start is. They are in line, the latest of them is the
    one with the most steps in whatever order they are looked at, and counting up by less than
    half the circle leads to a later id. -/
theorem window_order (base : Tid) {steps : List Nat} (hne : steps ≠ [])
    (hlt : ∀ k ∈ steps, k < halfCircle) :
    (∀ i ∈ steps, ∀ j ∈ steps,
      ((base.ahead i).isAfter (base.ahead j) = true ↔ i > j) ∧
      ((base.ahead i).isAtOrAfter (base.ahead j) = true ↔ i ≥ j) ∧
      (base.ahead i).compare (base.ahead j) = Ord.compare i j) ∧
    InLine (steps.map base.ahead) ∧
    (∃ most ∈ steps, (∀ k ∈ steps, k ≤ most) ∧
      ∀ first rest, (first :: rest).Perm (steps.map base.ahead) →
        rest.foldl latest first = base.ahead most) ∧
    ∀ n, 0 < n → n < halfCircle → (next^[n] base).isAfter base = true := by
  refine ⟨fun i hi j hj => ⟨isAfter_ahead (hlt i hi) (hlt j hj),
    isAtOrAfter_ahead (hlt i hi) (hlt j hj), compare_ahead (hlt i hi) (hlt j hj)⟩,
    inLine_of_lt base hlt, ?_, fun n hpos hn => ?_⟩
  · cases hmax : steps.max? with
    | none => exact absurd (List.max?_eq_none_iff.mp hmax) hne
    | some most =>
        rcases List.max?_eq_some_iff.mp hmax with ⟨hmem, hle⟩
        exact ⟨most, hmem, hle, fun first rest horder =>
          foldl_latest_of_perm hlt horder hmem hle⟩
  · have hstart : base.ahead 0 = base := (iterate_next base 0).symm
    have hlater := (@isAfter_ahead base n 0 hn (by decide)).mpr hpos
    rwa [hstart, ← iterate_next] at hlater

-- Four ids around the wrap, the last of them as far ahead as an id can be.
theorem window_order_wrap :
    let base : Tid := ⟨4294967293⟩
    let steps := [5, 0, 2147483647, 3]
    (steps ≠ [] ∧ ∀ k ∈ steps, k < halfCircle) ∧
      steps.map base.ahead = [⟨2⟩, ⟨4294967293⟩, ⟨2147483644⟩, ⟨0⟩] ∧
      InLine [⟨2⟩, ⟨4294967293⟩, ⟨2147483644⟩, ⟨0⟩] ∧
      List.foldl latest ⟨0⟩ [⟨2147483644⟩, ⟨4294967293⟩, ⟨2⟩] = ⟨2147483644⟩ := by
  intro base steps
  have hne : steps ≠ [] := by decide
  have hlt : ∀ k ∈ steps, k < halfCircle := by decide
  have hids : steps.map base.ahead = [⟨2⟩, ⟨4294967293⟩, ⟨2147483644⟩, ⟨0⟩] := by decide
  rcases window_order base hne hlt with ⟨_, hline, ⟨most, hmost, hle, hfold⟩, _⟩
  rw [hids] at hline hfold
  refine ⟨⟨hne, hlt⟩, hids, hline, ?_⟩
  have hfar : 2147483647 ≤ most := hle _ (by decide)
  have hmem : most = 2147483647 := by
    have hcases : ∀ k ∈ steps, 2147483647 ≤ k → k = 2147483647 := by decide
    exact hcases most hmost hfar
  rw [hfold ⟨0⟩ [⟨2147483644⟩, ⟨4294967293⟩, ⟨2⟩] (by decide), hmem]
  decide

end Tid

end BlockJournal
