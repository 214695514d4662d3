import BlockJournal.Store

/-!
# Laws of the Store

What each operation of the store does to the buffers and to the index.

The buffers are looked at through `Store.get` and the index through
`Store.mapped?`. A change of one buffer is seen through its id alone and never
through the index; putting a block into the cache and dropping it change what
the index says of that block and of no other.

## Theorems

* `get_modify`, `get_add`: The buffers after a change and with a new one.
* `modify_eq_self`: A change that does nothing.
* `mapped?_insertNew`, `mapped?_evict`: The index with a block and without it.
-/

namespace BlockJournal

namespace Store

theorem get_modify (s : Store) (id : BufferId) (f : Buffer → Buffer) (other : BufferId) :
    (s.modify id f).get other =
      if id = other ∧ other < s.buffers.size then f (s.get other) else s.get other := by
  simp only [modify, get, Array.getD_eq_getD_getElem?, Array.getElem?_modify]
  grind

@[simp] theorem mapped?_modify (s : Store) (id : BufferId) (f : Buffer → Buffer)
    (block : BlockNumber) : (s.modify id f).mapped? block = s.mapped? block := rfl

-- A change that does nothing to the buffer does nothing to the store.
theorem modify_eq_self {s : Store} {id : BufferId} {f : Buffer → Buffer}
    (h : f (s.get id) = s.get id) : s.modify id f = s := by
  have hbuffers : s.buffers.modify id f = s.buffers := by
    refine Array.ext Array.size_modify fun i hi hi' => ?_
    rw [Array.getElem_modify]
    split
    · rename_i hid
      subst hid
      rw [get, Array.getD_eq_getD_getElem?, Array.getElem?_eq_getElem hi', Option.getD_some] at h
      exact h
    · rfl
  rw [modify, hbuffers]

theorem get_add (s : Store) (b : Buffer) (other : BufferId) :
    (s.add b).2.get other = if other = s.buffers.size then b else s.get other := by
  simp only [add, get, Array.getD_eq_getD_getElem?, Array.getElem?_push]
  grind

theorem mapped?_insertNew (s : Store) (block other : BlockNumber) (data : Bytes) :
    (s.insertNew block data).2.mapped? other =
      if other = block then some (s.insertNew block data).1 else s.mapped? other := by
  unfold insertNew
  split
  · rename_i id h
    split
    · rename_i e; rw [e, h]
    · rfl
  · simp only [add, mapped?, List.lookup_cons]
    by_cases e : other = block
    · simp [e]
    · simp [e, beq_eq_false_iff_ne.2 e]

theorem mapped?_evict (s : Store) (block other : BlockNumber) :
    (s.evict block).2.mapped? other = if other = block then none else s.mapped? other := by
  unfold evict
  split
  · rename_i h
    split
    · rename_i e; rw [e, h]
    · rfl
  · simp only [mapped?]
    induction s.index with
    | nil => simp
    | cons entry rest ih =>
        rcases entry with ⟨b, id⟩
        simp only [List.filter_cons, List.lookup_cons]
        grind

end Store

end BlockJournal
