import BlockJournal.Commit
import BlockJournal.Proofs.Mount.Core
import BlockJournal.Proofs.Store.Marks

/-!
# The Circular Log in Order

What a circular log promises as long as nothing is released.

The log hands out the blocks of its area one after the other, so while none was
released the ones handed out are those below `RingLog.next`, and the ones above are
free. `RingLog.Laid` says so. A block that was written holds what was written to it
until it is written again, which takes going round the whole area.

Waiting for a transaction that went well returns the blocks of its descriptors, and
none of them is among the writes that failed.

## Main definitions

* `Device.Fits`, `Device.Made`: A device whose blocks all have addresses, and one that was
  made and used.
* `RingLog.next`: The block after the last one handed out.
* `RingLog.Laid`: A log that has handed out its blocks in order.
* `RingLog.batch`: The descriptors of a transaction.

## Theorems

* `write_cases`: A write is carried out or changes nothing.
* `read_write`: What a device holds after a write.
* `laid_create`, `Laid.advance`, `Laid.congr`: How a log stays in order.
* `wait_eq_ok`: What a wait that went well returns.
-/

namespace BlockJournal

-- Two blocks are told apart by their numbers.
theorem BlockNumber.toNat_inj {b other : BlockNumber} (h : b.toNat = other.toNat) : b = other := by
  cases b
  cases other
  simp only [BlockNumber.toNat] at h
  rw [UInt64.toNat_inj.mp h]

namespace Device

/-- Every block of the device has an address. -/
structure Fits (d : Device) : Prop where
  -- A block has bytes.
  pos : 0 < d.blockSize
  -- The end of the device is an address.
  lt : d.blockSize * d.blockCount < addressSpace

theorem Fits.blockCount_lt {d : Device} (h : d.Fits) : d.blockCount < addressSpace :=
  Nat.lt_of_le_of_lt (Nat.le_mul_of_pos_left _ h.pos) h.lt

-- Two blocks of a device are told apart by their addresses.
theorem Fits.toNat_ofNat {d : Device} (h : d.Fits) {n : Nat} (hn : n < d.blockCount) :
    (BlockNumber.ofNat n).toNat = n := by
  have hlt := Nat.lt_trans hn h.blockCount_lt
  simp only [addressSpace, UInt64.size] at hlt
  simp only [BlockNumber.ofNat, BlockNumber.toNat, UInt64.toNat_ofNat']
  omega

-- A device that was just made fits into the address space.
theorem fits_create {blockSize blockCount : Nat} {d : Device}
    (h : create blockSize blockCount = .ok d) : d.Fits ∧ d.blockSize = blockSize := by
  unfold create at h
  by_cases hpow : isPowerOfTwo blockSize = true
  · rw [if_pos hpow] at h
    by_cases hfits : blockSize * blockCount < addressSpace
    · rw [if_pos hfits, Except.ok.injEq] at h
      have hpos : 0 < blockSize := by
        have heq : Nat.pow 2 blockSize.log2 = blockSize := beq_iff_eq.mp hpow
        rw [← heq]
        exact Nat.pow_pos (by decide)
      rw [← h]
      refine ⟨⟨hpos, ?_⟩, rfl⟩
      simpa only [Device.blockCount, Array.size_replicate] using hfits
    · rw [if_neg hfits] at h
      exact absurd h (by simp only [reduceCtorEq, not_false_eq_true])
  · rw [if_neg hpow] at h
    exact absurd h (by simp only [reduceCtorEq, not_false_eq_true])

-- A block has an address only if it is there.
theorem lt_of_address {d : Device} {b : BlockNumber} {start : Nat} (h : d.address b = .ok start) :
    b.toNat < d.blockCount := by
  unfold address at h
  by_contra hc
  rw [if_neg hc] at h
  exact absurd h (by simp only [reduceCtorEq, not_false_eq_true])

/-- A write is carried out if the data fill a block that has an address and writes are not
    refused, and changes nothing otherwise. -/
theorem write_cases (d : Device) (b : BlockNumber) (data : Bytes) :
    ((data.length = d.blockSize ∧ (∃ start, d.address b = .ok start) ∧ d.failing = false) ∧
      d.write b data = (.ok (), { d with
        blocks := d.blocks.setIfInBounds b.toNat data
        writes := d.writes + 1 })) ∨
    (¬ (data.length = d.blockSize ∧ (∃ start, d.address b = .ok start) ∧ d.failing = false) ∧
      ∃ e, d.write b data = (.error e, d)) := by
  unfold write
  by_cases hlen : data.length = d.blockSize
  · rw [if_neg (fun hc => hc hlen)]
    cases haddress : d.address b with
    | error e =>
        refine Or.inr ⟨fun hc => ?_, e, rfl⟩
        rcases hc.2.1 with ⟨_, hstart⟩
        exact absurd hstart (by simp only [reduceCtorEq, not_false_eq_true])
    | ok start =>
        by_cases hfail : d.failing = true
        · refine Or.inr ⟨fun hc => ?_, .writeRefused b, by simp only [hfail, if_true]⟩
          rw [hc.2.2] at hfail
          exact absurd hfail Bool.false_ne_true
        · rw [Bool.not_eq_true] at hfail
          exact Or.inl ⟨⟨hlen, ⟨start, rfl⟩, hfail⟩, by
            simp only [hfail, Bool.false_eq_true, if_false]⟩
  · exact Or.inr ⟨fun hc => hlen hc.1, _, if_pos hlen⟩

theorem blockSize_write (d : Device) (b : BlockNumber) (data : Bytes) :
    (d.write b data).2.blockSize = d.blockSize := by
  rcases d.write_cases b data with ⟨_, heq⟩ | ⟨_, e, heq⟩
  · rw [heq]
  · rw [heq]

theorem blockCount_write (d : Device) (b : BlockNumber) (data : Bytes) :
    (d.write b data).2.blockCount = d.blockCount := by
  rcases d.write_cases b data with ⟨_, heq⟩ | ⟨_, e, heq⟩
  · rw [heq]
    exact Array.size_setIfInBounds
  · rw [heq]

theorem Fits.write {d : Device} (h : d.Fits) (b : BlockNumber) (data : Bytes) :
    (d.write b data).2.Fits := by
  refine ⟨?_, ?_⟩
  · rw [blockSize_write]
    exact h.pos
  · rw [blockSize_write, blockCount_write]
    exact h.lt

/-- A device that was made and used. -/
inductive Made : Device → Prop where
  -- A device is full of zeros at first.
  | create {blockSize blockCount : Nat} {d : Device} (h : create blockSize blockCount = .ok d) :
      Made d
  -- A block was written, or was not.
  | write {d : Device} (h : Made d) (b : BlockNumber) (data : Bytes) : Made (d.write b data).2
  -- Writes are refused, or are refused no longer.
  | setFailing {d : Device} (h : Made d) (failing : Bool) : Made (d.setFailing failing)

theorem Made.fits {d : Device} (h : d.Made) : d.Fits := by
  induction h with
  | create h => exact (fits_create h).1
  | write _ b data ih => exact ih.write b data
  | setFailing _ failing ih => exact ⟨ih.pos, ih.lt⟩

theorem address_congr {d d' : Device} {b : BlockNumber} (hsize : d'.blockSize = d.blockSize)
    (hcount : d'.blockCount = d.blockCount) : d'.address b = d.address b := by
  simp only [address, hsize, hcount]

-- What a block holds depends on the blocks of the device alone.
theorem read_congr {d d' : Device} {b : BlockNumber} (hsize : d'.blockSize = d.blockSize)
    (hcount : d'.blockCount = d.blockCount)
    (hblock : d'.blocks.getD b.toNat [] = d.blocks.getD b.toNat []) : d'.read b = d.read b := by
  simp only [read, address_congr hsize hcount, hblock]

-- A write leaves all other blocks alone.
theorem read_write_of_ne (d : Device) {b other : BlockNumber} (data : Bytes) (hne : other ≠ b) :
    (d.write b data).2.read other = d.read other := by
  refine read_congr (blockSize_write d b data) (blockCount_write d b data) ?_
  have hne' : b.toNat ≠ other.toNat := fun hc => hne (BlockNumber.toNat_inj hc).symm
  rcases d.write_cases b data with ⟨_, heq⟩ | ⟨_, e, heq⟩
  · simp only [heq, Array.getD_eq_getD_getElem?, Array.getElem?_setIfInBounds_ne hne']
  · rw [heq]

/-- A write that went well is read back. -/
theorem read_write {d d' : Device} {b : BlockNumber} {data : Bytes}
    (h : d.write b data = (.ok (), d')) : d'.read b = .ok data ∧ data.length = d.blockSize := by
  have hsame := address_congr (b := b) (blockSize_write d b data) (blockCount_write d b data)
  rw [h] at hsame
  rcases d.write_cases b data with ⟨⟨hlen, ⟨start, haddress⟩, _⟩, heq⟩ | ⟨_, e, heq⟩
  · rw [heq, Prod.mk.injEq] at h
    refine ⟨?_, hlen⟩
    rw [read, hsame, haddress, ← h.2]
    simp only [Array.getD_eq_getD_getElem?, Option.getD_some,
      Array.getElem?_setIfInBounds_self_of_lt (lt_of_address haddress)]
  · rw [heq, Prod.mk.injEq] at h
    exact absurd h.1 (by simp only [reduceCtorEq, not_false_eq_true])

end Device

namespace RingLog

/-- The block after the last one handed out, if none was released. -/
def next (log : RingLog) : Nat := log.last - log.free

/-- A log that has handed out the blocks of its area in order, and none twice. -/
structure Laid (log : RingLog) : Prop where
  -- The device has all its blocks.
  fits : log.device.Fits
  -- The area is part of the device.
  last_le : log.last ≤ log.device.blockCount
  -- Every free block is part of the area.
  free_le : log.free ≤ log.last - log.first
  -- The area is not empty.
  first_lt : log.first < log.last
  -- The block that is handed out next is the first that was not handed out.
  head_eq : 0 < log.free → log.head = log.next

-- A new log has an area that is part of the device, and all its blocks are free.
theorem create_eq_ok {device : Device} {first last : BlockNumber} {log : RingLog}
    (h : create device first last = .ok log) :
    first.toNat < last.toNat ∧ last.toNat ≤ device.blockCount ∧
      log = ⟨device, first.toNat, last.toNat, first.toNat, last.toNat - first.toNat, [], [], []⟩ := by
  unfold create at h
  by_cases harea : (decide (first.toNat < last.toNat) && decide (last.toNat ≤ device.blockCount)) = true
  · rw [if_pos harea, Except.ok.injEq] at h
    simp only [Bool.and_eq_true, decide_eq_true_eq] at harea
    exact ⟨harea.1, harea.2, h.symm⟩
  · rw [if_neg harea] at h
    exact absurd h (by simp only [reduceCtorEq, not_false_eq_true])

/-- A new log is in order and has nothing to wait for. -/
theorem laid_create {device : Device} (hdevice : device.Fits) {first last : BlockNumber}
    {log : RingLog} (h : create device first last = .ok log) :
    log.Laid ∧ log.device = device ∧ log.pending = [] ∧ log.next = log.first := by
  rcases create_eq_ok h with ⟨hlt, hle, rfl⟩
  refine ⟨⟨hdevice, hle, Nat.le_refl _, hlt, fun _ => ?_⟩, rfl, rfl, ?_⟩
  · simp only [next]
    omega
  · simp only [next]
    omega

/-- Handing out a block of a log that is in order. -/
theorem Laid.advance {log : RingLog} (h : log.Laid) (hfree : 0 < log.free) :
    log.advance.Laid ∧ log.advance.next = log.next + 1 ∧
      (BlockNumber.ofNat log.head).toNat = log.next := by
  have hle := h.free_le
  have hlt := h.first_lt
  have hhead := h.head_eq hfree
  simp only [next] at hhead
  have hcount := h.last_le
  refine ⟨⟨h.fits, h.last_le, ?_, h.first_lt, fun hmore => ?_⟩, ?_, ?_⟩
  · simp only [RingLog.advance]
    omega
  · -- The head was not the last block, since there is another one free.
    simp only [RingLog.advance, afterHead, next] at hmore ⊢
    rw [if_neg (by omega)]
    omega
  · simp only [RingLog.advance, next]
    omega
  · rw [h.fits.toNat_ofNat (by omega), hhead, next]

/-- What a log being in order depends on. -/
theorem Laid.congr {log log' : RingLog} (h : log.Laid) (hfits : log'.device.Fits)
    (hcount : log'.device.blockCount = log.device.blockCount) (hfirst : log'.first = log.first)
    (hlast : log'.last = log.last) (hhead : log'.head = log.head) (hfree : log'.free = log.free) :
    log'.Laid := by
  have hnext : log'.next = log.next := by rw [next, next, hlast, hfree]
  refine ⟨hfits, ?_, ?_, ?_, ?_⟩
  · rw [hlast, hcount]
    exact h.last_le
  · rw [hfree, hlast, hfirst]
    exact h.free_le
  · rw [hfirst, hlast]
    exact h.first_lt
  · rw [hfree, hhead, hnext]
    exact h.head_eq

-- A buffer that is submitted is written to its block, or the block is noted.
theorem next_submit (log : RingLog) (id : BufferId) (b : Buffer) {log' : RingLog}
    (h : (LogService.submit log id b).next = log') :
    log'.pending = log.pending ∧ log'.first = log.first ∧ log'.last = log.last ∧
    log'.head = log.head ∧ log'.free = log.free ∧
    log'.device = (log.device.write b.block b.data).2 ∧
    (∀ other ∈ log.failed, other ∈ log'.failed) ∧
    (b.block ∈ log'.failed ∨ (log.device.write b.block b.data).1 = .ok ()) := by
  rw [← h]
  rcases hwrite : log.device.write b.block b.data with ⟨e | ⟨⟩, device⟩
  · simp only [LogService.submit, hwrite, true_and]
    exact ⟨fun other hother => List.mem_insert_of_mem hother, Or.inl List.mem_insert_self⟩
  · simp only [LogService.submit, hwrite, true_and]
    exact ⟨fun other hother => hother, Or.inr trivial⟩

/-- The descriptors of a transaction that was not waited for, oldest first. -/
def batch (log : RingLog) (tid : Tid) : List BufferId :=
  (log.pending.filter (fun entry => entry.1 = tid)).map Prod.snd

theorem mem_batch {log : RingLog} {tid : Tid} {id : BufferId} :
    id ∈ log.batch tid ↔ (tid, id) ∈ log.pending := by
  simp only [batch, List.mem_map, List.mem_filter, decide_eq_true_eq]
  constructor
  · rintro ⟨⟨t, other⟩, ⟨hentry, rfl⟩, rfl⟩
    exact hentry
  · exact fun hentry => ⟨(tid, id), ⟨hentry, rfl⟩, rfl⟩

/-- The buffer is on its way to the log. -/
def Sent (store : Store) (id : BufferId) : Prop := (store.get id).flags.logWrite = true

theorem sent_setLogWrite (store : Store) (id other : BufferId) :
    Sent (store.modify id (·.setLogWrite false)) other ↔ Sent store other ∧ id ≠ other := by
  unfold Sent
  rw [Store.get_modify]
  by_cases ho : id = other ∧ other < store.buffers.size
  · rw [if_pos ho]
    exact iff_of_false (by simp only [Buffer.setLogWrite, Bool.false_eq_true, not_false_eq_true])
      (fun h => h.2 ho.1)
  · rw [if_neg ho]
    refine ⟨fun h => ⟨h, fun heq => ho ⟨heq, ?_⟩⟩, fun h => h.1⟩
    -- A buffer that does not exist is on its way nowhere.
    by_contra hc
    have hdefault : store.get other = default := by
      rw [Store.get, Array.getD_eq_getD_getElem?, Array.getElem?_eq_none (Nat.le_of_not_lt hc)]
      rfl
    rw [hdefault] at h
    exact absurd h (by decide)

theorem remarked_setLogWrite (store : Store) (id : BufferId) :
    store.Remarked (fun _ state => state) (store.modify id (·.setLogWrite false)) := by
  have h := Store.remarked_modify store id (f := (·.setLogWrite false)) (g := fun state => state)
    (fun _ => rfl) (fun _ => rfl) (fun _ => rfl) (fun _ => rfl)
  simpa only [ite_self] using h

-- The three things that can come of waiting for one descriptor.
theorem Collected.add_cases (c : Collected) (id : BufferId) :
    (¬ Sent c.store id ∧ c.add id = c) ∨
    (Sent c.store id ∧ (c.store.get id).block ∈ c.failed ∧
      c.add id =
        { c with
          store := c.store.modify id (·.setLogWrite false)
          failed := c.failed.erase (c.store.get id).block
          lost := c.lost ++ [(c.store.get id).block] }) ∨
    (Sent c.store id ∧ (c.store.get id).block ∉ c.failed ∧
      c.add id =
        { c with
          store := c.store.modify id (·.setLogWrite false)
          written := c.written ++ [(c.store.get id).block] }) := by
  unfold Collected.add
  by_cases hsent : (c.store.get id).flags.logWrite = true
  · by_cases hfailed : (c.store.get id).block ∈ c.failed
    · refine Or.inr (Or.inl ⟨hsent, hfailed, ?_⟩)
      simp only [hsent, hfailed, if_true]
    · refine Or.inr (Or.inr ⟨hsent, hfailed, ?_⟩)
      simp only [hsent, hfailed, if_true, if_false]
  · exact Or.inl ⟨hsent, by simp only [hsent]; rfl⟩

-- What was lost stays lost.
theorem Collected.lost_add {c : Collected} (h : c.lost ≠ []) (id : BufferId) :
    (c.add id).lost ≠ [] := by
  rcases c.add_cases id with ⟨_, heq⟩ | ⟨_, _, heq⟩ | ⟨_, _, heq⟩
  · rw [heq]
    exact h
  · rw [heq]
    exact List.append_ne_nil_of_left_ne_nil h _
  · rw [heq]
    exact h

theorem lost_of_lost {ids : List BufferId} {c : Collected} (h : c.lost ≠ []) :
    (ids.foldl Collected.add c).lost ≠ [] := by
  induction ids generalizing c with
  | nil => exact h
  | cons id ids ih => exact ih (Collected.lost_add h id)

-- Waiting for descriptors that were all written returns their blocks, and takes
-- nothing but the mark of the write away from their buffers.
theorem foldl_add {ids : List BufferId} {c : Collected}
    (hlost : (ids.foldl Collected.add c).lost = []) :
    (∃ written, (ids.foldl Collected.add c).written = c.written ++ written ∧
      written.length ≤ ids.length ∧
      ∀ b, b ∈ written ↔ ∃ id ∈ ids, Sent c.store id ∧ (c.store.get id).block = b) ∧
    (∀ id ∈ ids, Sent c.store id → (c.store.get id).block ∉ c.failed) ∧
    c.store.Remarked (fun _ state => state) (ids.foldl Collected.add c).store := by
  induction ids generalizing c with
  | nil =>
      refine ⟨⟨[], (List.append_nil _).symm, Nat.le_refl _, fun b => ?_⟩,
        fun id hid => absurd hid List.not_mem_nil, .refl _⟩
      refine iff_of_false List.not_mem_nil ?_
      rintro ⟨id, hid, _⟩
      exact absurd hid List.not_mem_nil
  | cons id ids ih =>
      rw [List.foldl_cons] at hlost ⊢
      rcases ih hlost with ⟨⟨written, hwritten, hlen, hmem⟩, hfine, hmarks⟩
      rcases c.add_cases id with ⟨hunsent, heq⟩ | ⟨_, _, hbad⟩ | ⟨hsent, hfailed, heq⟩
      · rw [heq] at hwritten hmem hfine hmarks ⊢
        refine ⟨⟨written, hwritten, Nat.le_succ_of_le hlen, fun b => ?_⟩, ?_, hmarks⟩
        · rw [hmem]
          simp only [List.mem_cons, exists_eq_or_imp, hunsent, false_and, false_or]
        · rintro other hother hsent
          rcases List.mem_cons.mp hother with rfl | hother
          · exact absurd hsent hunsent
          · exact hfine other hother hsent
      · refine absurd hlost (lost_of_lost ?_)
        rw [hbad]
        exact List.append_ne_nil_of_right_ne_nil _ (List.cons_ne_nil _ _)
      · rw [heq] at hwritten hmem hfine hmarks ⊢
        have hkept := remarked_setLogWrite c.store id
        refine ⟨⟨(c.store.get id).block :: written, ?_, Nat.succ_le_succ hlen, fun b => ?_⟩, ?_,
          hkept.trans hmarks⟩
        · rw [hwritten, List.append_assoc, List.singleton_append]
        · rw [List.mem_cons, hmem]
          simp only [sent_setLogWrite, hkept.block_eq, List.mem_cons, exists_eq_or_imp, hsent,
            true_and]
          constructor
          · rintro (rfl | ⟨other, hother, ⟨hsent', _⟩, hb⟩)
            · exact Or.inl rfl
            · exact Or.inr ⟨other, hother, hsent', hb⟩
          · rintro (hb | ⟨other, hother, hsent', hb⟩)
            · exact Or.inl hb.symm
            · -- Another descriptor with the same buffer was counted the first time.
              by_cases ho : id = other
              · exact Or.inl (ho ▸ hb.symm)
              · exact Or.inr ⟨other, hother, ⟨hsent', ho⟩, hb⟩
        · rintro other hother hsent'
          rcases List.mem_cons.mp hother with rfl | hother
          · exact hfailed
          · by_cases ho : id = other
            · exact ho ▸ hfailed
            · have hblock := hfine other hother ((sent_setLogWrite _ _ _).mpr ⟨hsent', ho⟩)
              rw [hkept.block_eq] at hblock
              exact hblock

end RingLog

namespace Mount

/-- A wait that went well returns the blocks of the descriptors of its transaction. None
    of their writes failed, and nothing happens to the log but that they are off its
    list. -/
theorem wait_eq_ok {m m' : Mount RingLog} {tid : Tid} {blocks : List BlockNumber}
    (h : m.wait tid = (.ok blocks, m')) :
    (∀ b, b ∈ blocks ↔ ∃ id, (tid, id) ∈ m.log.pending ∧ RingLog.Sent m.store id ∧
      (m.store.get id).block = b) ∧
    blocks.length ≤ m.log.pending.length ∧
    (∀ id, (tid, id) ∈ m.log.pending → RingLog.Sent m.store id →
      (m.store.get id).block ∉ m.log.failed) ∧
    (∃ failed, m'.log =
      { m.log with pending := m.log.pending.filter (fun entry => entry.1 ≠ tid), failed := failed }) ∧
    m'.core = { m.core with store := m'.store } ∧
    m.store.Remarked (fun _ state => state) m'.store := by
  let c := (m.log.batch tid).foldl RingLog.Collected.add ⟨m.store, m.log.failed, [], []⟩
  have hresult : c.result = .ok blocks := congrArg Prod.fst h
  have hafter : m' = { m with
      log :=
        { m.log with
          pending := m.log.pending.filter (fun entry => entry.1 ≠ tid)
          failed := c.failed }
      store := c.store }.emit (c.event tid) := (congrArg Prod.snd h).symm
  unfold RingLog.Collected.result at hresult
  by_cases hlost : c.lost.isEmpty = true
  · rw [if_pos hlost, Except.ok.injEq] at hresult
    rcases RingLog.foldl_add (List.isEmpty_iff.mp hlost) with
      ⟨⟨written, hwritten, hlen, hmem⟩, hfine, hmarks⟩
    have hblocks : blocks = written := hresult.symm.trans hwritten
    subst hafter
    refine ⟨fun b => ?_, ?_, fun id hid => hfine id (RingLog.mem_batch.mpr hid), ⟨c.failed, rfl⟩,
      rfl, hmarks⟩
    · rw [hblocks, hmem]
      simp only [RingLog.mem_batch]
    · rw [hblocks]
      refine Nat.le_trans hlen ?_
      rw [RingLog.batch, List.length_map]
      exact List.length_filter_le _ _
  · rw [if_neg hlost] at hresult
    exact absurd hresult (by simp only [reduceCtorEq, not_false_eq_true])

end Mount

end BlockJournal
