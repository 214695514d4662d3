import BlockJournal.Table.Drain
import Mathlib.Algebra.Ring.Nat

/-!
# Laws of Tables

How the operations on a table act on its chains.

A chain is looked at through `Table.chain`, and everything in a table through
`Table.records`. Each operation changes one chain at most, and `swapRemove`
changes a chain in a way that keeps all its records but one, as
`swapRemove_perm` says, and all their positions but that of the last, as
`getElem?_swapRemove` says.

## Theorems

* `bucketIndex_lt`: A bucket index names a bucket.
* `swapRemove_perm`: Removing a record loses no other.
* `getElem?_swapRemove`: Where the records of a chain are after a removal.
* `Table.chain_of_modify`: Changing one chain leaves the others alone.
* `Table.length_records`: The chains hold everything there is.
-/

namespace BlockJournal

/-- The highest bits of a word are a number of so many bits. -/
theorem bucketIndex_lt (b : BlockNumber) {bits : Nat} (h : bits ≤ 64) :
    bucketIndex b bits < 2 ^ bits := by
  unfold bucketIndex
  split
  · exact Nat.pow_pos (by decide)
  · have hx : (mixedBits b).toNat < 2 ^ bits * 2 ^ (64 - bits) := by
      rw [← Nat.pow_add, Nat.add_sub_of_le h]
      exact (mixedBits b).toNat_lt
    rw [Nat.shiftRight_eq_div_pow]
    exact Nat.div_lt_of_lt_mul (by rw [Nat.mul_comm]; exact hx)

/-- A removal makes a chain shorter by one. -/
theorem length_swapRemove {α : Type} {chain : List α} {slot : Nat} :
    (swapRemove chain slot).length = chain.length - 1 := by
  unfold swapRemove
  split
  · rename_i h
    rw [List.getLast?_eq_none_iff] at h
    simp [h]
  · simp

/-- The record at a position and those left without it are all there were. -/
theorem swapRemove_perm {α : Type} {chain : List α} {slot : Nat} (h : slot < chain.length) :
    (chain[slot] :: swapRemove chain slot).Perm chain := by
  unfold swapRemove
  split
  · rename_i hn
    rw [List.getLast?_eq_none_iff] at hn
    simp [hn] at h
  · rename_i last hl
    obtain ⟨front, rfl⟩ := List.getLast?_eq_some_iff.1 hl
    by_cases hs : slot < front.length
    · rw [List.set_append_left _ _ hs, List.dropLast_concat, List.getElem_append_left hs]
      have h1 : (front[slot] :: front.set slot last).Perm (last :: front) := by
        clear hl h
        induction front generalizing slot with
        | nil => simp at hs
        | cons x rest ih =>
            cases slot with
            | zero => exact List.Perm.swap _ _ _
            | succ n =>
                simp only [List.getElem_cons_succ, List.set_cons_succ]
                have rest_perm := @ih n (by simpa using hs)
                exact ((List.Perm.swap _ _ _).trans (rest_perm.cons x)).trans (List.Perm.swap _ _ _)
      exact h1.trans (List.perm_append_singleton last front).symm
    · have he : slot = front.length := by simp at h; omega
      subst he
      simpa using (List.perm_append_singleton last front).symm

/-- After a removal the last record of the chain is in the place of the one removed. -/
theorem getElem?_swapRemove {α : Type} {chain : List α} {slot : Nat} (i : Nat) :
    (swapRemove chain slot)[i]? =
      if i + 1 < chain.length then
        if i = slot then chain.getLast? else chain[i]?
      else none := by
  unfold swapRemove
  split
  · rename_i h
    rw [List.getLast?_eq_none_iff] at h
    simp [h]
  · rename_i last h
    rw [List.getElem?_dropLast, List.getElem?_set]
    grind

namespace Table

@[simp] theorem hashSize_emptied (t : Table) : t.emptied.hashSize = t.hashSize := by
  simp [emptied, hashSize]

/-- Changing the chain of one bucket leaves those of the others alone. -/
theorem chain_of_modify (buckets : Array (List Record)) (bucket : Nat)
    (f : List Record → List Record) (hf : f [] = []) (other : Nat) :
    (buckets.modify bucket f).getD other [] =
      if bucket = other then f (buckets.getD other []) else buckets.getD other [] := by
  simp only [Array.getD_eq_getD_getElem?, Array.getElem?_modify]
  by_cases h : bucket = other
  · subst h
    by_cases hb : bucket < buckets.size
    · simp [hb]
    · simp [hb, hf]
  · simp [h]

theorem chain_emptied (t : Table) (bucket : Nat) : t.emptied.chain bucket = [] := by
  simp only [emptied, chain, Array.getD_eq_getD_getElem?, Array.getElem?_map]
  cases t.buckets[bucket]? <;> rfl

@[simp] theorem records_emptied (t : Table) : t.emptied.records = [] := by
  rw [records, emptied, List.flatMap_eq_nil_iff]
  intro chain hchain
  rw [Array.toList_map, List.mem_map] at hchain
  rcases hchain with ⟨_, _, rfl⟩
  rfl

theorem length_records (t : Table) : t.records.length = t.bucketLengths.sum := by
  simp only [records, bucketLengths]
  induction t.buckets.toList with
  | nil => rfl
  | cons chain rest ih => simp [ih]

end Table

end BlockJournal
