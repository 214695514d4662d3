import Mathlib.Data.List.Perm.Basic
import Mathlib.Logic.Function.Basic

/-!
# Operations on Cells

Operations of which each looks at one cell and changes no other.

What such an operation comes to depends on what it meets in its cell, and operations on
other cells have nothing to do with that. If two sequences have no cell in common then an
operation therefore meets the same in every interleaving of them, namely what it meets when
its own sequence runs alone, and in the end the cells are as they are if one sequence runs
after the other.

## Main definitions

* `Interleaves`: A list made of two others, each in its own order.
* `met`: What the operations of a sequence meet.
* `settled`: The cells after a sequence.

## Theorems

* `Interleaves.perm`, `Interleaves.map`: What is in an interleaving.
* `Interleaves.meeting`: What the operations of an interleaving meet.
* `Interleaves.settled_eq`: The cells after it.
-/

namespace BlockJournal

/-- The last list is made of the other two, each of which keeps its order. -/
inductive Interleaves {α : Type} : List α → List α → List α → Prop
  | nil : Interleaves [] [] []
  -- The next one is the next of the first list.
  | left {x : α} {xs ys zs : List α} (h : Interleaves xs ys zs) : Interleaves (x :: xs) ys (x :: zs)
  -- The next one is the next of the second list.
  | right {y : α} {xs ys zs : List α} (h : Interleaves xs ys zs) :
      Interleaves xs (y :: ys) (y :: zs)

namespace Interleaves

variable {α β : Type} {xs ys zs : List α}

-- An interleaving has what is in the two lists.
theorem perm (h : Interleaves xs ys zs) : zs.Perm (xs ++ ys) := by
  induction h with
  | nil => exact .nil
  | left _ ih => exact ih.cons _
  | right _ ih => exact (ih.cons _).trans List.perm_middle.symm

theorem map (h : Interleaves xs ys zs) (f : α → β) :
    Interleaves (xs.map f) (ys.map f) (zs.map f) := by
  induction h with
  | nil => exact .nil
  | left _ ih => exact ih.left
  | right _ ih => exact ih.right

end Interleaves

variable {α κ ς : Type} [DecidableEq κ] (cell : α → κ) (next : α → ς → ς)

/-- What is in the cells after an operation. -/
def turned (cells : κ → ς) (a : α) : κ → ς :=
  Function.update cells (cell a) (next a (cells (cell a)))

/-- The operations of a sequence with what each of them meets in its cell. -/
def met (cells : κ → ς) : List α → List (α × ς)
  | [] => []
  | a :: rest => (a, cells (cell a)) :: met (turned cell next cells a) rest

/-- What is in the cells after a sequence of operations. -/
def settled (cells : κ → ς) (as : List α) : κ → ς := as.foldl (turned cell next) cells

variable {cell next} {cells cells' : κ → ς} {as xs ys zs : List α}

-- Operations on other cells leave a cell alone.
theorem turned_of_ne {a : α} {k : κ} (h : cell a ≠ k) : turned cell next cells a k = cells k :=
  Function.update_of_ne (Ne.symm h) _ _

-- What is met depends on the cells that are looked at.
theorem met_congr (h : ∀ a ∈ as, cells (cell a) = cells' (cell a)) :
    met cell next cells as = met cell next cells' as := by
  induction as generalizing cells cells' with
  | nil => rfl
  | cons a rest ih =>
      have ha := h a List.mem_cons_self
      rw [met, met, ha]
      refine congrArg _ (ih fun b hb => ?_)
      by_cases hcell : cell a = cell b
      · rw [turned, turned, hcell, Function.update_self, Function.update_self, ← hcell, ha]
      · rw [turned_of_ne hcell, turned_of_ne hcell]
        exact h b (List.mem_cons_of_mem a hb)

/-- In an interleaving of two sequences without a cell in common an operation meets what it
    meets when its sequence runs alone. -/
theorem Interleaves.meeting (h : Interleaves xs ys zs)
    (hdisjoint : ∀ x ∈ xs, ∀ y ∈ ys, cell x ≠ cell y) (cells : κ → ς) :
    Interleaves (met cell next cells xs) (met cell next cells ys) (met cell next cells zs) := by
  induction h generalizing cells with
  | nil => exact .nil
  | @left x xs ys zs _ ih =>
      have hrest := ih (fun a ha => hdisjoint a (List.mem_cons_of_mem x ha))
        (turned cell next cells x)
      have hsame : met cell next (turned cell next cells x) ys =
          met cell next cells ys :=
        met_congr fun y hy => turned_of_ne (hdisjoint x List.mem_cons_self y hy)
      rw [hsame] at hrest
      exact hrest.left
  | @right y xs ys zs _ ih =>
      have hrest := ih (fun a ha b hb => hdisjoint a ha b (List.mem_cons_of_mem y hb))
        (turned cell next cells y)
      have hsame : met cell next (turned cell next cells y) xs =
          met cell next cells xs :=
        met_congr fun x hx => turned_of_ne (hdisjoint x hx y List.mem_cons_self).symm
      rw [hsame] at hrest
      exact hrest.right

-- Operations on different cells can change places.
theorem turned_comm {a b : α} (h : cell a ≠ cell b) (cells : κ → ς) :
    turned cell next (turned cell next cells a) b =
      turned cell next (turned cell next cells b) a := by
  unfold turned
  rw [Function.update_of_ne h.symm, Function.update_of_ne h, Function.update_comm h]

-- An operation can go before all operations on other cells.
theorem settled_middle {y : α} (h : ∀ x ∈ xs, cell x ≠ cell y) (cells : κ → ς) :
    settled cell next cells (xs ++ y :: ys) = settled cell next cells (y :: (xs ++ ys)) := by
  induction xs generalizing cells with
  | nil => rfl
  | cons x xs ih =>
      have hrest := ih (fun a ha => h a (List.mem_cons_of_mem x ha)) (turned cell next cells x)
      simp only [settled, List.cons_append, List.foldl_cons] at hrest ⊢
      rw [hrest, turned_comm (h x List.mem_cons_self)]

/-- After an interleaving of two sequences without a cell in common the cells are as they are
    after one sequence and then the other. -/
theorem Interleaves.settled_eq (h : Interleaves xs ys zs)
    (hdisjoint : ∀ x ∈ xs, ∀ y ∈ ys, cell x ≠ cell y) (cells : κ → ς) :
    settled cell next cells zs = settled cell next cells (xs ++ ys) := by
  induction h generalizing cells with
  | nil => rfl
  | @left x xs ys zs _ ih =>
      exact ih (fun a ha => hdisjoint a (List.mem_cons_of_mem x ha)) _
  | @right y xs ys zs _ ih =>
      have hrest := ih (fun a ha b hb => hdisjoint a ha b (List.mem_cons_of_mem y hb))
        (turned cell next cells y)
      rw [settled_middle fun x hx => hdisjoint x hx y List.mem_cons_self]
      exact hrest

end BlockJournal
