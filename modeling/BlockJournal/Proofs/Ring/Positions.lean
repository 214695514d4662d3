import BlockJournal.Proofs.RingLog

/-!
# Going Round

Which block of a circular log is handed out when.

The head of a log and the number of its free blocks change independently: one goes
round its area, the other goes up and down. What ties them together is the list of all
blocks that were ever handed out. The block handed out at the `i`-th time is the `i`-th
of the area, counted round, and the blocks that are not free are the last of the list.
`RingLog.Cycled` says so, and every position is then a number below or above another
one: two times that are less than one round apart give two blocks.

## Main definitions

* `RingLog.place`: The block handed out at a given time.
* `RingLog.Cycled`: A log that has handed out some blocks, the oldest of which were
  released.

## Theorems

* `cycled_create`, `Cycled.advance`, `Cycled.release`, `Cycled.submit`, `Cycled.congr`: What
  keeps a log going round.
* `Cycled.place_inj`, `Cycled.mem_area`: Which blocks are the same, and where they are.
* `Cycled.ne_of_lt`, `Cycled.nodup_taken`: The blocks that are not free are all different.
* `Cycled.head_not_mem`: The next block is none of them.
-/

namespace BlockJournal

namespace RingLog

/-- The block that is handed out at the `i`-th time, counted from zero. -/
def place (log : RingLog) (i : Nat) : BlockNumber :=
  BlockNumber.ofNat (log.first + i % log.capacity)

/-- A log that has handed out the blocks `handed`, oldest first, and of these the first
    `released` were released. -/
structure Cycled (log : RingLog) (handed : List BlockNumber) (released : Nat) : Prop where
  -- The device has all its blocks.
  fits : log.device.Fits
  -- The area is not empty.
  first_lt : log.first < log.last
  -- It is part of the device.
  last_le : log.last ≤ log.device.blockCount
  -- The head has gone round the area, one block each time.
  head_eq : log.head = log.first + handed.length % log.capacity
  -- So every block was handed out in turn.
  handed_eq : handed = (List.range handed.length).map log.place
  -- No block was released that was not handed out.
  released_le : released ≤ handed.length
  -- The other blocks are not free.
  free_eq : log.free + (handed.length - released) = log.capacity

variable {log : RingLog} {handed : List BlockNumber} {released : Nat}

/-- A new log has handed out nothing. -/
theorem cycled_create {device : Device} (hdevice : device.Fits) {first last : BlockNumber}
    (h : create device first last = .ok log) :
    log.Cycled [] 0 ∧ log.first = first.toNat ∧ log.last = last.toNat ∧ log.device = device := by
  rcases create_eq_ok h with ⟨hlt, hle, rfl⟩
  refine ⟨⟨hdevice, hlt, hle, ?_, rfl, Nat.le_refl 0, rfl⟩, rfl, rfl, rfl⟩
  exact (congrArg (first.toNat + ·) (Nat.zero_mod _)).symm

theorem Cycled.capacity_pos (h : log.Cycled handed released) : 0 < log.capacity :=
  Nat.sub_pos_of_lt h.first_lt

theorem Cycled.place_lt (h : log.Cycled handed released) (i : Nat) :
    log.first + i % log.capacity < log.last := by
  have hmod := Nat.mod_lt i h.capacity_pos
  rw [capacity] at hmod ⊢
  omega

/-- Every place is a block of the area. -/
theorem Cycled.toNat_place (h : log.Cycled handed released) (i : Nat) :
    (log.place i).toNat = log.first + i % log.capacity :=
  h.fits.toNat_ofNat (Nat.lt_of_lt_of_le (h.place_lt i) h.last_le)

/-- The same block is not handed out again before all others were. -/
theorem Cycled.place_inj (h : log.Cycled handed released) {i j : Nat} (hle : i ≤ j)
    (hlt : j < i + log.capacity) (heq : log.place i = log.place j) : i = j := by
  have hmod : i % log.capacity = j % log.capacity := by
    have hnat := congrArg BlockNumber.toNat heq
    rw [h.toNat_place, h.toNat_place] at hnat
    omega
  have hzero := Nat.sub_mod_eq_zero_of_mod_eq hmod.symm
  rw [Nat.mod_eq_of_lt (by omega)] at hzero
  omega

-- The head is the place of the next block.
theorem Cycled.ofNat_head (h : log.Cycled handed released) :
    BlockNumber.ofNat log.head = log.place handed.length := by
  rw [place, h.head_eq]

theorem Cycled.head_mem (h : log.Cycled handed released) :
    log.first ≤ log.head ∧ log.head < log.last := by
  rw [h.head_eq]
  exact ⟨Nat.le_add_right _ _, h.place_lt _⟩

theorem Cycled.free_le (h : log.Cycled handed released) : log.free ≤ log.last - log.first := by
  have hfree := h.free_eq
  rw [capacity] at hfree
  omega

-- What was handed out at a given time.
theorem Cycled.eq_place (h : log.Cycled handed released) {i : Nat} {b : BlockNumber}
    (hb : handed[i]? = some b) : i < handed.length ∧ b = log.place i := by
  rcases List.getElem?_eq_some_iff.mp hb with ⟨hlt, _⟩
  refine ⟨hlt, ?_⟩
  rw [h.handed_eq, List.getElem?_map, List.getElem?_range hlt, Option.map_some,
    Option.some.injEq] at hb
  exact hb.symm

/-- Two blocks that are not free and were handed out at different times are different. -/
theorem Cycled.ne_of_lt (h : log.Cycled handed released) {i j : Nat} {b b' : BlockNumber}
    (hi : released ≤ i) (hlt : i < j) (hb : handed[i]? = some b) (hb' : handed[j]? = some b') :
    b ≠ b' := by
  have hfree := h.free_eq
  rcases h.eq_place hb with ⟨_, rfl⟩
  rcases h.eq_place hb' with ⟨hj, rfl⟩
  intro heq
  exact absurd (h.place_inj (Nat.le_of_lt hlt) (by omega) heq) (Nat.ne_of_lt hlt)

/-- The blocks that are not free are all different. -/
theorem Cycled.nodup_taken (h : log.Cycled handed released) : (handed.drop released).Nodup := by
  refine List.pairwise_iff_getElem.mpr fun i j hi hj hlt => ?_
  rw [List.getElem_drop, List.getElem_drop]
  exact h.ne_of_lt (Nat.le_add_right released i) (Nat.add_lt_add_left hlt released)
    (List.getElem?_eq_getElem _) (List.getElem?_eq_getElem _)

/-- Every block that was handed out lies in the area. -/
theorem Cycled.mem_area (h : log.Cycled handed released) {b : BlockNumber} (hb : b ∈ handed) :
    log.first ≤ b.toNat ∧ b.toNat < log.last := by
  rcases List.mem_iff_getElem?.mp hb with ⟨i, hi⟩
  rw [(h.eq_place hi).2, h.toNat_place]
  exact ⟨Nat.le_add_right _ _, h.place_lt i⟩

-- The head goes back to the first block after the last one.
theorem Cycled.afterHead_eq (h : log.Cycled handed released) :
    log.afterHead = log.first + (handed.length + 1) % log.capacity := by
  have hmod := Nat.mod_lt handed.length h.capacity_pos
  have hround := Nat.div_add_mod handed.length log.capacity
  have hcapacity : log.first + log.capacity = log.last :=
    Nat.add_sub_of_le (Nat.le_of_lt h.first_lt)
  rw [afterHead, h.head_eq]
  by_cases hlast : handed.length % log.capacity + 1 = log.capacity
  · rw [if_pos (by omega), ← hround, Nat.add_assoc, hlast, ← Nat.mul_succ, Nat.mul_mod_right]
    rfl
  · rw [if_neg (by omega)]
    conv_rhs => rw [← hround, Nat.add_assoc, Nat.mul_add_mod, Nat.mod_eq_of_lt (by omega)]
    rw [Nat.add_assoc]

/-- Handing out a block that is free. -/
theorem Cycled.advance (h : log.Cycled handed released) (hfree : 0 < log.free) :
    log.advance.Cycled (handed ++ [BlockNumber.ofNat log.head]) released := by
  have hcount := h.free_eq
  have hreleased := h.released_le
  refine ⟨h.fits, h.first_lt, h.last_le, ?_, ?_, ?_, ?_⟩
  · rw [List.length_append, List.length_singleton]
    exact h.afterHead_eq
  · rw [List.length_append, List.length_singleton, List.range_succ, List.map_append]
    change _ = List.map log.place _ ++ [log.place handed.length]
    rw [← h.handed_eq, h.ofNat_head]
  · rw [List.length_append]
    omega
  · change log.free - 1 + _ = log.capacity
    rw [List.length_append, List.length_singleton]
    omega

/-- The block that is handed out next is none of those that are not free. -/
theorem Cycled.head_not_mem (h : log.Cycled handed released) (hfree : 0 < log.free) :
    BlockNumber.ofNat log.head ∉ handed.drop released := by
  have hnodup := (h.advance hfree).nodup_taken
  rw [List.drop_append_of_le_length h.released_le, List.nodup_append] at hnodup
  intro hmem
  exact hnodup.2.2 _ hmem _ (List.mem_singleton.mpr rfl) rfl

/-- Releasing blocks, oldest first, and no more than there are. -/
theorem Cycled.release (h : log.Cycled handed released) (count : Nat) :
    (log.release count).Cycled handed (min (released + count) handed.length) := by
  have hcount := h.free_eq
  have hreleased := h.released_le
  refine ⟨h.fits, h.first_lt, h.last_le, h.head_eq, h.handed_eq, Nat.min_le_right _ _, ?_⟩
  change min (log.free + count) log.capacity + _ = log.capacity
  omega

/-- What it depends on that a log goes round. -/
theorem Cycled.congr {log' : RingLog} (h : log.Cycled handed released)
    (hfits : log'.device.Fits) (hcount : log'.device.blockCount = log.device.blockCount)
    (hfirst : log'.first = log.first) (hlast : log'.last = log.last)
    (hhead : log'.head = log.head) (hfree : log'.free = log.free) :
    log'.Cycled handed released := by
  have hcapacity : log'.capacity = log.capacity := by rw [capacity, capacity, hfirst, hlast]
  have hplace : log'.place = log.place := by
    funext i
    rw [place, place, hfirst, hcapacity]
  refine ⟨hfits, ?_, ?_, ?_, ?_, h.released_le, ?_⟩
  · rw [hfirst, hlast]
    exact h.first_lt
  · rw [hlast, hcount]
    exact h.last_le
  · rw [hhead, hfirst, hcapacity]
    exact h.head_eq
  · rw [hplace]
    exact h.handed_eq
  · rw [hfree, hcapacity]
    exact h.free_eq

-- Writing to a block changes nothing about the positions.
theorem Cycled.submit (h : log.Cycled handed released) (id : BufferId) (b : Buffer) :
    (LogService.submit log id b).next.Cycled handed released := by
  rcases log.next_submit id b rfl with ⟨_, hfirst, hlast, hhead, hfree, hdevice, _⟩
  refine h.congr ?_ ?_ hfirst hlast hhead hfree
  · rw [hdevice]
    exact h.fits.write _ _
  · rw [hdevice, Device.blockCount_write]

end RingLog

end BlockJournal
