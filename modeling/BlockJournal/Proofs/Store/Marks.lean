import BlockJournal.Store.Lemmas

/-!
# Marks in a Store

What is known of revokes across all the buffers of a store.

The journal changes a store in three ways. It changes the marks of buffers that
are there, it adds buffers of its own at the end, and it moves blocks in and out
of the cache. `Store.Remarked` describes the first by a function on marks and
`Store.Extends` the second; both leave the index alone. `Store.Coherent` is what
all three keep: the index leads to buffers that exist, that are buffers of the
block asked for, and that know they are in the cache.

## Main definitions

* `Store.mark`: What a buffer knows of the revoke of its block.
* `Store.Remarked`: A store with other marks.
* `Store.Aside`: A buffer that the cache does not know about.
* `Store.Extends`: A store with more buffers that stand aside.
* `Store.Grows`: A store with more blocks in the cache.
* `Store.Coherent`: The index and the buffers agree.

## Theorems

* `remarked_setRevoke`, `remarked_setDirty`: Changes of one buffer.
* `Extends.trans`, `Extends.modify`: Buffers that were added may change.
* `coherent_create`, `coherent_insertNew`, `coherent_evict`: The cache keeps the index in order.
* `grows_insertNew`, `grows_detached`: New buffers know nothing.
* `read_outcomes`: The ways for a read to go.
* `read_cases`: Reading a block puts it into the cache at most.
* `mark_evict`: Dropping a block changes no mark.
-/

namespace BlockJournal

theorem BlockSize.bytes_of_ofNat? {n : Nat} {size : BlockSize} (h : ofNat? n = .ok size) :
    size.bytes = n := by
  unfold ofNat? at h
  by_cases hn : IsBlockSize n
  · rw [dif_pos hn, Except.ok.injEq] at h
    rw [← h]
  · rw [dif_neg hn] at h
    exact absurd h (by simp only [reduceCtorEq, not_false_eq_true])

namespace Store

/-- What a buffer knows of the revoke of its block. -/
def mark (s : Store) (id : BufferId) : RevokeState := (s.get id).flags.revoke

/-- A store with the marks changed by `f`, and with the same buffers otherwise, as
    far as the cache is concerned. -/
structure Remarked (s : Store) (f : BufferId → RevokeState → RevokeState) (s' : Store) : Prop where
  -- The size of the buffers in the cache.
  blockSize_eq : s'.blockSize = s.blockSize
  -- The index.
  index_eq : s'.index = s.index
  -- The number of buffers.
  size_eq : s'.buffers.size = s.buffers.size
  -- The block of each buffer.
  block_eq : ∀ id, (s'.get id).block = (s.get id).block
  -- The size each buffer was made for.
  bytes_eq : ∀ id, (s'.get id).size = (s.get id).size
  -- Whether each buffer is in the cache.
  hashed_eq : ∀ id, (s'.get id).flags.hashed = (s.get id).flags.hashed
  -- The marks.
  mark_eq : ∀ id, id < s.buffers.size → s'.mark id = f id (s.mark id)

theorem Remarked.refl (s : Store) : s.Remarked (fun _ state => state) s :=
  ⟨rfl, rfl, rfl, fun _ => rfl, fun _ => rfl, fun _ => rfl, fun _ _ => rfl⟩

theorem Remarked.trans {s s' s'' : Store} {f g : BufferId → RevokeState → RevokeState}
    (hf : s.Remarked f s') (hg : s'.Remarked g s'') :
    s.Remarked (fun id state => g id (f id state)) s'' where
  blockSize_eq := hg.blockSize_eq.trans hf.blockSize_eq
  index_eq := hg.index_eq.trans hf.index_eq
  size_eq := hg.size_eq.trans hf.size_eq
  block_eq id := (hg.block_eq id).trans (hf.block_eq id)
  bytes_eq id := (hg.bytes_eq id).trans (hf.bytes_eq id)
  hashed_eq id := (hg.hashed_eq id).trans (hf.hashed_eq id)
  mark_eq id hid := by
    rw [hg.mark_eq id (by rw [hf.size_eq]; exact hid), hf.mark_eq id hid]

theorem Remarked.congr {s s' : Store} {f g : BufferId → RevokeState → RevokeState}
    (h : s.Remarked f s') (hfg : ∀ id, f id (s.mark id) = g id (s.mark id)) : s.Remarked g s' :=
  { h with mark_eq := fun id hid => (h.mark_eq id hid).trans (hfg id) }

theorem Remarked.mapped?_eq {s s' : Store} {f : BufferId → RevokeState → RevokeState}
    (h : s.Remarked f s') (b : BlockNumber) : s'.mapped? b = s.mapped? b := by
  rw [mapped?, mapped?, h.index_eq]

@[simp] theorem size_modify (s : Store) (id : BufferId) (f : Buffer → Buffer) :
    (s.modify id f).buffers.size = s.buffers.size := Array.size_modify

-- A change of one buffer that leaves alone where the buffer belongs changes the
-- mark of this buffer at most.
theorem remarked_modify (s : Store) (id : BufferId) {f : Buffer → Buffer}
    {g : RevokeState → RevokeState} (hblock : ∀ b, (f b).block = b.block)
    (hbytes : ∀ b, (f b).size = b.size) (hhashed : ∀ b, (f b).flags.hashed = b.flags.hashed)
    (hmark : ∀ b, (f b).flags.revoke = g b.flags.revoke) :
    s.Remarked (fun other state => if id = other then g state else state) (s.modify id f) := by
  refine ⟨rfl, rfl, size_modify s id f, ?_, ?_, ?_, ?_⟩
  · intro other
    rw [get_modify]
    split
    · exact hblock _
    · rfl
  · intro other
    rw [get_modify]
    split
    · exact hbytes _
    · rfl
  · intro other
    rw [get_modify]
    split
    · exact hhashed _
    · rfl
  · intro other hother
    rw [mark, mark, get_modify]
    by_cases ho : id = other
    · rw [if_pos ⟨ho, hother⟩, if_pos ho]
      exact hmark _
    · rw [if_neg (fun h => ho h.1), if_neg ho]

theorem remarked_setRevoke (s : Store) (id : BufferId) (g : RevokeState → RevokeState) :
    s.Remarked (fun other state => if id = other then g state else state)
      (s.modify id (fun b => b.setRevoke (g b.flags.revoke))) :=
  remarked_modify s id (fun _ => rfl) (fun _ => rfl) (fun _ => rfl) (fun _ => rfl)

/-- The dirty mark says nothing about revokes. -/
theorem remarked_setDirty (s : Store) (id : BufferId) (dirty : Bool) :
    s.Remarked (fun _ state => state) (s.modify id (·.setDirty dirty)) := by
  have h := remarked_modify s id (f := (·.setDirty dirty)) (g := fun state => state)
    (fun _ => rfl) (fun _ => rfl) (fun _ => rfl) (fun _ => rfl)
  simpa only [ite_self] using h

/-- A buffer that the cache does not know about, and that knows nothing of revokes. -/
def Aside (s : Store) (id : BufferId) : Prop :=
  (s.get id).flags.hashed = false ∧ s.mark id = .unknown

-- An id that was not given out stands for a buffer that the cache does not know.
theorem aside_of_size_le {s : Store} {id : BufferId} (hid : s.buffers.size ≤ id) :
    s.Aside id := by
  have hdefault : s.get id = default := by
    rw [get, Array.getD_eq_getD_getElem?, Array.getElem?_eq_none hid]
    rfl
  rw [Aside, mark, hdefault]
  exact ⟨rfl, rfl⟩

/-- A store with more buffers that stand aside, in which the ones there were are as
    they were. -/
structure Extends (s s' : Store) : Prop where
  -- The size of the buffers in the cache.
  blockSize_eq : s'.blockSize = s.blockSize
  -- The index.
  index_eq : s'.index = s.index
  -- No buffer is gone.
  size_le : s.buffers.size ≤ s'.buffers.size
  -- The buffers there were.
  get_eq : ∀ id, id < s.buffers.size → s'.get id = s.get id
  -- The new buffers.
  aside : ∀ id, s.buffers.size ≤ id → s'.Aside id

theorem Extends.refl (s : Store) : s.Extends s :=
  ⟨rfl, rfl, Nat.le_refl _, fun _ _ => rfl, fun _ hid => aside_of_size_le hid⟩

theorem Extends.trans {s s' s'' : Store} (h : s.Extends s') (h' : s'.Extends s'') :
    s.Extends s'' := by
  refine ⟨h'.blockSize_eq.trans h.blockSize_eq, h'.index_eq.trans h.index_eq,
    Nat.le_trans h.size_le h'.size_le, fun id hid => ?_, fun id hid => ?_⟩
  · rw [h'.get_eq id (Nat.lt_of_lt_of_le hid h.size_le), h.get_eq id hid]
  · by_cases hid' : id < s'.buffers.size
    · rw [Aside, mark, h'.get_eq id hid']
      exact h.aside id hid
    · exact h'.aside id (Nat.le_of_not_lt hid')

theorem extends_detached (s : Store) (block : BlockNumber) (size : Nat) :
    s.Extends (s.detached block size).2 := by
  refine ⟨rfl, rfl, ?_, fun id hid => ?_, fun id hid => ?_⟩
  · simp only [detached, add, Array.size_push]
    omega
  · rw [detached, get_add, if_neg (Nat.ne_of_lt hid)]
  · rw [Aside, mark, detached, get_add]
    split
    · exact ⟨rfl, rfl⟩
    · exact aside_of_size_le hid

/-- A buffer that was added may change, as long as it stands aside. -/
theorem Extends.modify {s s' : Store} (h : s.Extends s') {id : BufferId}
    (hid : s.buffers.size ≤ id) {f : Buffer → Buffer}
    (hhashed : ∀ b, (f b).flags.hashed = b.flags.hashed)
    (hmark : ∀ b, (f b).flags.revoke = b.flags.revoke) : s.Extends (s'.modify id f) := by
  refine ⟨h.blockSize_eq, h.index_eq, ?_, fun other hother => ?_, fun other hother => ?_⟩
  · rw [size_modify]
    exact h.size_le
  · have hne : id ≠ other := fun ho => Nat.not_le_of_lt hother (ho ▸ hid)
    rw [get_modify, if_neg (fun ho => hne ho.1), h.get_eq other hother]
  · rw [Aside, mark, get_modify]
    split
    · rw [hhashed, hmark]
      exact h.aside other hother
    · exact h.aside other hother

theorem Extends.mapped?_eq {s s' : Store} (h : s.Extends s') (b : BlockNumber) :
    s'.mapped? b = s.mapped? b := by
  rw [mapped?, mapped?, h.index_eq]

theorem Extends.mark_eq {s s' : Store} (h : s.Extends s') {id : BufferId}
    (hid : id < s.buffers.size) : s'.mark id = s.mark id := by
  rw [mark, mark, h.get_eq id hid]

/-- The index leads to buffers that exist and belong where it says, and they know it. -/
structure Coherent (s : Store) : Prop where
  -- The buffer exists.
  lt_size : ∀ {b id}, s.mapped? b = some id → id < s.buffers.size
  -- It is a buffer of the block.
  block_eq : ∀ {b id}, s.mapped? b = some id → (s.get id).block = b
  -- It has the size of the cache.
  bytes_eq : ∀ {b id}, s.mapped? b = some id → (s.get id).size = s.blockSize.bytes
  -- It knows that it is in the cache.
  hashed : ∀ {b id}, s.mapped? b = some id → (s.get id).flags.hashed = true
  -- A buffer that is not in the cache knows it, too.
  mapped : ∀ {id}, (s.get id).flags.hashed = true → s.mapped? (s.get id).block = some id

-- The store of an empty cache.
theorem coherent_create {n : Nat} {s : Store} (h : create n = .ok s) :
    s.Coherent ∧ s.index = [] ∧ s.blockSize.bytes = n := by
  unfold create at h
  cases hsize : BlockSize.ofNat? n with
  | error e => simp only [hsize, reduceCtorEq] at h
  | ok size =>
      simp only [hsize, Except.ok.injEq] at h
      rw [← h]
      have hnone : ∀ {b id}, mapped? ⟨size, [], #[]⟩ b ≠ some id := by
        intro b id
        simp only [mapped?, List.lookup_nil, ne_eq, reduceCtorEq, not_false_eq_true]
      refine ⟨⟨fun hb => absurd hb hnone, fun hb => absurd hb hnone, fun hb => absurd hb hnone,
        fun hb => absurd hb hnone, fun {id} hid => ?_⟩, rfl, BlockSize.bytes_of_ofNat? hsize⟩
      rw [(aside_of_size_le (Nat.zero_le id)).1] at hid
      exact absurd hid (by simp only [Bool.false_eq_true, not_false_eq_true])

theorem Coherent.remarked {s s' : Store} {f : BufferId → RevokeState → RevokeState}
    (hs : s.Coherent) (h : s.Remarked f s') : s'.Coherent := by
  refine ⟨fun hb => ?_, fun hb => ?_, fun hb => ?_, fun hb => ?_, fun hid => ?_⟩
  · rw [h.size_eq]
    exact hs.lt_size (h.mapped?_eq _ ▸ hb)
  · rw [h.block_eq]
    exact hs.block_eq (h.mapped?_eq _ ▸ hb)
  · rw [h.bytes_eq, h.blockSize_eq]
    exact hs.bytes_eq (h.mapped?_eq _ ▸ hb)
  · rw [h.hashed_eq]
    exact hs.hashed (h.mapped?_eq _ ▸ hb)
  · rw [h.block_eq, h.mapped?_eq]
    exact hs.mapped (h.hashed_eq _ ▸ hid)

theorem Coherent.extends {s s' : Store} (hs : s.Coherent) (h : s.Extends s') : s'.Coherent := by
  refine ⟨fun hb => ?_, fun hb => ?_, fun hb => ?_, fun hb => ?_, fun {id} hid => ?_⟩
  · rw [h.mapped?_eq] at hb
    exact Nat.lt_of_lt_of_le (hs.lt_size hb) h.size_le
  · rw [h.mapped?_eq] at hb
    rw [h.get_eq _ (hs.lt_size hb)]
    exact hs.block_eq hb
  · rw [h.mapped?_eq] at hb
    rw [h.get_eq _ (hs.lt_size hb), h.blockSize_eq]
    exact hs.bytes_eq hb
  · rw [h.mapped?_eq] at hb
    rw [h.get_eq _ (hs.lt_size hb)]
    exact hs.hashed hb
  · by_cases hlt : id < s.buffers.size
    · rw [h.get_eq id hlt] at hid ⊢
      rw [h.mapped?_eq]
      exact hs.mapped hid
    · rw [(h.aside id (Nat.le_of_not_lt hlt)).1] at hid
      exact absurd hid (by simp only [Bool.false_eq_true, not_false_eq_true])

-- A buffer is in the cache under one block only.
theorem Coherent.eq_of_mapped {s : Store} (hs : s.Coherent) {b b' : BlockNumber} {id : BufferId}
    (hb : s.mapped? b = some id) (hb' : s.mapped? b' = some id) : b = b' :=
  (hs.block_eq hb).symm.trans (hs.block_eq hb')

-- Putting a block into the cache changes nothing if it was there, and otherwise adds
-- a buffer that knows nothing.
theorem insertNew_cases (s : Store) (block : BlockNumber) (data : Bytes) :
    (∃ id, s.mapped? block = some id ∧ s.insertNew block data = (id, s)) ∨
    (s.mapped? block = none ∧ ∃ s', s.insertNew block data = (s.buffers.size, s') ∧
      s'.blockSize = s.blockSize ∧ s'.buffers.size = s.buffers.size + 1 ∧
      s'.get s.buffers.size = Buffer.cached block s.blockSize.bytes data ∧
      ∀ id, id < s.buffers.size → s'.get id = s.get id) := by
  cases hb : s.mapped? block with
  | some id => exact Or.inl ⟨id, rfl, by simp only [insertNew, hb]⟩
  | none =>
      have hadd := get_add s (Buffer.cached block s.blockSize.bytes data)
      refine Or.inr ⟨rfl, ⟨s.blockSize, (block, s.buffers.size) :: s.index,
        s.buffers.push (Buffer.cached block s.blockSize.bytes data)⟩,
        ?_, rfl, Array.size_push _, ?_, ?_⟩
      · simp only [insertNew, hb, add]
      · exact (hadd _).trans (if_pos rfl)
      · exact fun id hid => (hadd id).trans (if_neg (Nat.ne_of_lt hid))

theorem coherent_insertNew {s : Store} (hs : s.Coherent) (block : BlockNumber) (data : Bytes) :
    (s.insertNew block data).2.Coherent := by
  have hindex := fun other => mapped?_insertNew s block other data
  rcases insertNew_cases s block data with
    ⟨id, _, heq⟩ | ⟨hnone, s', heq, hbytes, hsize, hnew, hold⟩
  · rw [heq]
    exact hs
  · rw [heq] at hindex ⊢
    -- A block of the cache is the new one, or one that was there.
    have hcases : ∀ {b id}, s'.mapped? b = some id →
        (b = block ∧ id = s.buffers.size) ∨ s.mapped? b = some id := by
      intro b id hb
      rw [hindex] at hb
      by_cases h : b = block
      · rw [if_pos h, Option.some.injEq] at hb
        exact Or.inl ⟨h, hb.symm⟩
      · rw [if_neg h] at hb
        exact Or.inr hb
    refine ⟨fun hb => ?_, fun hb => ?_, fun hb => ?_, fun hb => ?_, fun {id} hid => ?_⟩
    · rw [hsize]
      rcases hcases hb with ⟨_, rfl⟩ | hb
      · exact Nat.lt_succ_self _
      · exact Nat.lt_succ_of_lt (hs.lt_size hb)
    · rcases hcases hb with ⟨rfl, rfl⟩ | hb
      · rw [hnew]; rfl
      · rw [hold _ (hs.lt_size hb)]
        exact hs.block_eq hb
    · rcases hcases hb with ⟨rfl, rfl⟩ | hb
      · rw [hnew, hbytes]; rfl
      · rw [hold _ (hs.lt_size hb), hbytes]
        exact hs.bytes_eq hb
    · rcases hcases hb with ⟨rfl, rfl⟩ | hb
      · rw [hnew]; rfl
      · rw [hold _ (hs.lt_size hb)]
        exact hs.hashed hb
    · rcases Nat.lt_trichotomy id s.buffers.size with hlt | rfl | hgt
      · rw [hold id hlt] at hid ⊢
        rw [hindex, if_neg, hs.mapped hid]
        intro hb
        have hmapped := hs.mapped hid
        rw [hb, hnone] at hmapped
        exact absurd hmapped (by simp only [reduceCtorEq, not_false_eq_true])
      · rw [hnew, hindex]
        exact if_pos rfl
      · rw [(aside_of_size_le (hsize ▸ Nat.succ_le_of_lt hgt)).1] at hid
        exact absurd hid (by simp only [Bool.false_eq_true, not_false_eq_true])

/-- A store in which blocks may have come into the cache, with buffers that know
    nothing yet. -/
structure Grows (s s' : Store) : Prop where
  -- The size of the buffers in the cache.
  blockSize_eq : s'.blockSize = s.blockSize
  -- No buffer is gone.
  size_le : s.buffers.size ≤ s'.buffers.size
  -- The buffers there were.
  get_eq : ∀ id, id < s.buffers.size → s'.get id = s.get id
  -- The new buffers know nothing.
  unknown : ∀ id, s.buffers.size ≤ id → s'.mark id = .unknown
  -- The blocks that were in the cache are there.
  kept : ∀ {b id}, s.mapped? b = some id → s'.mapped? b = some id
  -- The other blocks in the cache have new buffers.
  new : ∀ {b id}, s'.mapped? b = some id → s.mapped? b = some id ∨ s.buffers.size ≤ id

theorem Grows.refl (s : Store) : s.Grows s :=
  ⟨rfl, Nat.le_refl _, fun _ _ => rfl, fun _ hid => (aside_of_size_le hid).2, fun h => h, Or.inl⟩

theorem Grows.mark_eq {s s' : Store} (h : s.Grows s') {id : BufferId} (hid : id < s.buffers.size) :
    s'.mark id = s.mark id := by
  rw [mark, mark, h.get_eq id hid]

theorem Grows.trans {s s' s'' : Store} (h : s.Grows s') (h' : s'.Grows s'') : s.Grows s'' := by
  refine ⟨h'.blockSize_eq.trans h.blockSize_eq, Nat.le_trans h.size_le h'.size_le,
    fun id hid => ?_, fun id hid => ?_, fun hb => h'.kept (h.kept hb), fun {b id} hb => ?_⟩
  · rw [h'.get_eq id (Nat.lt_of_lt_of_le hid h.size_le), h.get_eq id hid]
  · by_cases hid' : id < s'.buffers.size
    · rw [h'.mark_eq hid', h.unknown id hid]
    · exact h'.unknown id (Nat.le_of_not_lt hid')
  · rcases h'.new hb with hold | hnew
    · exact h.new hold
    · exact Or.inr (Nat.le_trans h.size_le hnew)

theorem grows_insertNew (s : Store) (block : BlockNumber) (data : Bytes) :
    s.Grows (s.insertNew block data).2 := by
  have hindex := fun other => mapped?_insertNew s block other data
  rcases insertNew_cases s block data with ⟨_, _, heq⟩ | ⟨hb, s', heq, hbytes, hsize, hnew, hold⟩
  · rw [heq]
    exact .refl s
  · rw [heq] at hindex ⊢
    refine ⟨hbytes, ?_, hold, fun id hid => ?_, fun {b id} h => ?_, fun {b id} h => ?_⟩
    · rw [hsize]
      exact Nat.le_succ _
    · rcases Nat.eq_or_lt_of_le hid with rfl | hlt
      · rw [mark, hnew]
        rfl
      · exact (aside_of_size_le (by rw [hsize]; exact hlt)).2
    · rw [hindex, if_neg, h]
      rintro rfl
      rw [hb] at h
      exact absurd h (by simp only [reduceCtorEq, not_false_eq_true])
    · rw [hindex] at h
      by_cases ho : b = block
      · rw [if_pos ho, Option.some.injEq] at h
        exact Or.inr (Nat.le_of_eq h)
      · rw [if_neg ho] at h
        exact Or.inl h

theorem grows_detached (s : Store) (block : BlockNumber) (size : Nat) :
    s.Grows (s.detached block size).2 := by
  have h := extends_detached s block size
  exact ⟨h.blockSize_eq, h.size_le, h.get_eq, fun id hid => (h.aside id hid).2, fun hb => hb,
    Or.inl⟩

theorem mapped?_of_lookup {s : Store} {block : BlockNumber} {size : Nat} {id : BufferId}
    (h : s.lookup block size = some id) : s.mapped? block = some id := by
  rw [lookup] at h
  split at h
  · exact h
  · exact absurd h (by simp only [reduceCtorEq, not_false_eq_true])

/-- The four ways for a read to go, whatever others do while the device is at work. -/
theorem read_outcomes (s : Store) (device : Device) (block : BlockNumber)
    (during : Store → Store) :
    (∃ id, s.mapped? block = some id ∧ s.reachesDevice device block = false ∧
      s.read device block during = (.ok id, s)) ∨
    (∃ e, device.blockSize ≠ s.blockSize.bytes ∧ s.reachesDevice device block = false ∧
      s.read device block during = (.error e, s)) ∨
    (∃ e, device.read block = .error e ∧ s.reachesDevice device block = true ∧
      s.read device block during = (.error e, during s)) ∨
    (∃ data, device.read block = .ok data ∧ s.reachesDevice device block = true ∧
      s.read device block during =
        (.ok ((during s).insertNew block data).1, ((during s).insertNew block data).2)) := by
  unfold read
  cases hb : s.mapped? block with
  | some id =>
      refine Or.inl ⟨id, rfl, ?_, rfl⟩
      simp only [reachesDevice, hb, Option.isNone_some, Bool.false_and]
  | none =>
      have hreaches : s.reachesDevice device block = (device.blockSize == s.blockSize.bytes) := by
        simp only [reachesDevice, hb, Option.isNone_none, Bool.true_and]
      cases hsize : device.blockSize == s.blockSize.bytes with
      | false =>
          rw [hsize] at hreaches
          refine Or.inr (Or.inl ⟨.cacheMismatch device.blockSize s.blockSize.bytes,
            ne_of_beq_false hsize, hreaches, ?_⟩)
          simp only [hreaches, Bool.false_eq_true, if_false]
      | true =>
          rw [hsize] at hreaches
          simp only [hreaches, if_true]
          cases hread : device.read block with
          | error e => exact Or.inr (Or.inr (Or.inl ⟨e, rfl, trivial, rfl⟩))
          | ok data => exact Or.inr (Or.inr (Or.inr ⟨data, rfl, trivial, rfl⟩))

/-- Reading a block puts it into the cache at most. -/
theorem read_cases (s : Store) (device : Device) (block : BlockNumber) (contended : Bool)
    {P : Store → Prop} (hs : P s) (hinsert : ∀ s data, P s → P (s.insertNew block data).2) :
    P (s.read device block
      (fun s => if contended then (s.getOrCreate block).2 else s)).2 := by
  have hduring : P (if contended = true then (s.getOrCreate block).2 else s) := by
    split
    · exact hinsert s _ hs
    · exact hs
  rcases s.read_outcomes device block (fun s => if contended then (s.getOrCreate block).2 else s)
    with ⟨_, _, _, h⟩ | ⟨_, _, _, h⟩ | ⟨_, _, _, h⟩ | ⟨data, _, _, h⟩
  · rw [h]
    exact hs
  · rw [h]
    exact hs
  · rw [h]
    exact hduring
  · rw [h]
    exact hinsert _ data hduring

-- Dropping a block leaves everything but the index and one hashed mark alone.
theorem get_evict (s : Store) (block : BlockNumber) (id : BufferId) :
    (s.evict block).2.get id = s.get id ∨
      (s.mapped? block = some id ∧ (s.evict block).2.get id = (s.get id).setHashed false) := by
  unfold evict
  cases hb : s.mapped? block with
  | none => exact Or.inl rfl
  | some other =>
      have hget := get_modify s other (·.setHashed false) id
      by_cases ho : other = id ∧ id < s.buffers.size
      · rw [if_pos ho] at hget
        exact Or.inr ⟨by rw [ho.1], hget⟩
      · rw [if_neg ho] at hget
        exact Or.inl hget

-- The buffer of a block that is dropped knows it.
theorem unhashed_evict {s : Store} {block : BlockNumber} {id : BufferId}
    (hb : s.mapped? block = some id) (hid : id < s.buffers.size) :
    ((s.evict block).2.get id).flags.hashed = false := by
  have hget := get_modify s id (·.setHashed false) id
  rw [if_pos ⟨rfl, hid⟩] at hget
  simp only [evict, hb]
  change ((s.modify id (·.setHashed false)).get id).flags.hashed = false
  rw [hget]
  rfl

theorem size_evict (s : Store) (block : BlockNumber) :
    (s.evict block).2.buffers.size = s.buffers.size := by
  unfold evict
  split
  · rfl
  · exact size_modify s _ _

theorem blockSize_evict (s : Store) (block : BlockNumber) :
    (s.evict block).2.blockSize = s.blockSize := by
  unfold evict
  split
  · rfl
  · rfl

theorem mark_evict (s : Store) (block : BlockNumber) (id : BufferId) :
    (s.evict block).2.mark id = s.mark id := by
  rcases get_evict s block id with h | ⟨_, h⟩
  · rw [mark, mark, h]
  · rw [mark, mark, h]
    rfl

theorem coherent_evict {s : Store} (hs : s.Coherent) (block : BlockNumber) :
    (s.evict block).2.Coherent := by
  have hcases : ∀ {b id}, (s.evict block).2.mapped? b = some id →
      b ≠ block ∧ s.mapped? b = some id := by
    intro b id hb
    rw [mapped?_evict] at hb
    by_cases h : b = block
    · rw [if_pos h] at hb
      exact absurd hb (by simp only [reduceCtorEq, not_false_eq_true])
    · rw [if_neg h] at hb
      exact ⟨h, hb⟩
  -- The buffer that changes is the one of the block that is dropped.
  have hget : ∀ {b id}, (s.evict block).2.mapped? b = some id →
      (s.evict block).2.get id = s.get id := by
    intro b id hb
    rcases hcases hb with ⟨hne, hold⟩
    rcases get_evict s block id with h | ⟨h, _⟩
    · exact h
    · exact absurd (hs.eq_of_mapped hold h) hne
  refine ⟨fun hb => ?_, fun hb => ?_, fun hb => ?_, fun hb => ?_, fun {id} hid => ?_⟩
  · rw [size_evict]
    exact hs.lt_size (hcases hb).2
  · rw [hget hb]
    exact hs.block_eq (hcases hb).2
  · rw [hget hb, blockSize_evict]
    exact hs.bytes_eq (hcases hb).2
  · rw [hget hb]
    exact hs.hashed (hcases hb).2
  · rcases get_evict s block id with h | ⟨_, h⟩
    · rw [h] at hid ⊢
      rw [mapped?_evict, if_neg, hs.mapped hid]
      intro hb
      have hmapped := hs.mapped hid
      rw [hb] at hmapped
      rw [← h, unhashed_evict hmapped (hs.lt_size hmapped)] at hid
      exact absurd hid (by simp only [Bool.false_eq_true, not_false_eq_true])
    · rw [h] at hid
      exact absurd hid (by simp only [Buffer.setHashed, Bool.false_eq_true, not_false_eq_true])

end Store

end BlockJournal
