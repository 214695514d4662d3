import BlockJournal.Proofs.FieldAccess
import BlockJournal.Proofs.RingLog

/-!
# Devices as One String of Bytes

A device keeps its blocks apart. Seen from below it is one string of bytes, and a block is
a range of it.

`FlatDevice` is that view. It has no blocks to keep apart: what separates them is
arithmetic, and where the arithmetic goes wrong an access leaves the string or hits the
bytes of another block. So its operations work with `Bytes.cut?` and `Bytes.patch?`, and
they give nothing where an address is too large for a word or a range is not one of the
string.

That never happens. The end of a block is not behind the end of the device, which was found
to be an address when the device was made, and the blocks before it take up just the bytes
before its start. `read?_flat` and `write?_flat` say that the flat view of a device does what
the device does.

## Main definitions

* `FlatDevice`: A device as one string of bytes, with `create`, `read?` and `write?`.
* `Device.flat`: The flat view of a device.
* `Device.Formatted`: A device whose blocks have addresses and are all of one size.

## Theorems

* `Bytes.slice_flatten`, `Bytes.splice_flatten`: One of many strings of the same length.
* `Device.address_eq`: Where a block starts.
* `Device.Formatted.cut?_contents`, `Device.Formatted.patch?_contents`: The bytes of a block.
* `Device.create_flat`, `Device.read?_flat`, `Device.write?_flat`: Both views agree.
-/

namespace BlockJournal

namespace Bytes

-- Strings of one length, one after the other.
theorem length_flatten_of_forall {size : Nat} {blocks : List Bytes}
    (hsize : ∀ block ∈ blocks, block.length = size) :
    blocks.flatten.length = blocks.length * size := by
  induction blocks with
  | nil => rw [List.flatten_nil, List.length_nil, List.length_nil, Nat.zero_mul]
  | cons block rest ih =>
      rcases List.forall_mem_cons.mp hsize with ⟨hblock, hrest⟩
      rw [List.flatten_cons, List.length_append, hblock, ih hrest, List.length_cons, Nat.succ_mul,
        Nat.add_comm]

-- The strings before one of them take up the bytes before its place.
theorem flatten_around {size : Nat} {blocks : List Bytes}
    (hsize : ∀ block ∈ blocks, block.length = size) {i : Nat} (hi : i < blocks.length) :
    blocks.flatten = (blocks.take i).flatten ++ (blocks[i] ++ (blocks.drop (i + 1)).flatten) ∧
      (blocks.take i).flatten.length = i * size := by
  refine ⟨?_, ?_⟩
  · conv_lhs => rw [← List.take_append_drop i blocks, List.drop_eq_getElem_cons hi]
    rw [List.flatten_append, List.flatten_cons]
  · rw [length_flatten_of_forall fun block hblock => hsize block (List.mem_of_mem_take hblock),
      List.length_take_of_le (Nat.le_of_lt hi)]

/-- One of many strings of the same length is read at its place. -/
theorem slice_flatten {size : Nat} {blocks : List Bytes}
    (hsize : ∀ block ∈ blocks, block.length = size) {i : Nat} (hi : i < blocks.length) :
    slice blocks.flatten (i * size) size = blocks[i] := by
  rcases flatten_around hsize hi with ⟨hall, hfront⟩
  rw [slice, hall, List.drop_left' hfront, List.take_left' (hsize _ (List.getElem_mem hi))]

/-- What is put at its place replaces that string and no other. -/
theorem splice_flatten {size : Nat} {blocks : List Bytes}
    (hsize : ∀ block ∈ blocks, block.length = size) {i : Nat} (hi : i < blocks.length) {new : Bytes}
    (hnew : new.length = size) :
    splice blocks.flatten (i * size) new = (blocks.set i new).flatten := by
  rcases flatten_around hsize hi with ⟨hall, hfront⟩
  have hlen := hsize _ (List.getElem_mem hi)
  have hback : blocks.flatten.drop (i * size + new.length) = (blocks.drop (i + 1)).flatten := by
    rw [← List.drop_drop, hall, List.drop_left' hfront, List.drop_left' (hlen.trans hnew.symm)]
  rw [splice, hback, hall, List.take_left' hfront, List.set_eq_take_append_cons_drop, if_pos hi,
    List.flatten_append, List.flatten_cons, List.append_assoc]

end Bytes

/-- A block device as one string of bytes. -/
structure FlatDevice where
  /-- The number of bytes in a block. -/
  blockSize : Nat
  /-- The number of blocks. -/
  blockCount : Nat
  /-- The bytes of all blocks. -/
  bytes : Bytes
  /-- The number of writes carried out, modulo the width of a word. -/
  writes : UInt64
  /-- Whether writes are refused. -/
  failing : Bool
  deriving DecidableEq

namespace FlatDevice

/-- A device full of zeros. -/
def create (blockSize blockCount : Nat) : Except Error FlatDevice :=
  if isPowerOfTwo blockSize then
    if blockSize * blockCount < addressSpace then
      .ok ⟨blockSize, blockCount, Bytes.zeros (blockSize * blockCount), 0, false⟩
    else .error .deviceTooLarge
  else .error (.deviceBlockSize blockSize)

/-- Where a block starts and ends, with nothing for an end that is not an address. -/
def range? (d : FlatDevice) (block : BlockNumber) : Option (Except Error (Nat × Nat)) :=
  if block.toNat < d.blockCount then
    let start := block.toNat * d.blockSize
    if start < addressSpace then
      if start + d.blockSize < addressSpace then some (.ok (start, start + d.blockSize)) else none
    else some (.error .blockOffsetOverflow)
  else some (.error (.blockOutOfRange block d.blockCount))

/-- Read a block, with nothing for an access outside of the device. -/
def read? (d : FlatDevice) (block : BlockNumber) : Option (Except Error Bytes) :=
  match d.range? block with
  | none => none
  | some (.error e) => some (.error e)
  | some (.ok (first, last)) => (d.bytes.cut? first last).map .ok

/-- Write a block, with nothing for an access outside of the device. -/
def write? (d : FlatDevice) (block : BlockNumber) (data : Bytes) :
    Option (Except Error Unit × FlatDevice) :=
  if data.length ≠ d.blockSize then some (.error (.writeSize data.length d.blockSize), d)
  else
    match d.range? block with
    | none => none
    | some (.error e) => some (.error e, d)
    | some (.ok (first, last)) =>
        if d.failing then some (.error (.writeRefused block), d)
        else (d.bytes.patch? first last data).map fun bytes =>
          (.ok (), { d with bytes := bytes, writes := d.writes + 1 })

/-- Make the device refuse writes, or stop doing so. -/
def setFailing (d : FlatDevice) (failing : Bool) : FlatDevice := { d with failing := failing }

end FlatDevice

namespace Device

/-- The flat view of a device. -/
def flat (d : Device) : FlatDevice := ⟨d.blockSize, d.blockCount, d.contents, d.writes, d.failing⟩

/-- A device whose blocks all have addresses and are of the size they should be. -/
structure Formatted (d : Device) : Prop extends Fits d where
  -- Every block is as long as a block is.
  length_eq : ∀ block ∈ d.blocks.toList, block.length = d.blockSize

/-- Where a block starts: an address, if there is such a block. -/
theorem address_eq {d : Device} (hfits : d.Fits) (block : BlockNumber) :
    d.address block =
      if block.toNat < d.blockCount then .ok (block.toNat * d.blockSize)
      else .error (.blockOutOfRange block d.blockCount) := by
  unfold address
  by_cases hb : block.toNat < d.blockCount
  · have hstart : block.toNat * d.blockSize < addressSpace := by
      refine Nat.lt_of_le_of_lt ?_ hfits.lt
      rw [Nat.mul_comm d.blockSize]
      exact Nat.mul_le_mul_right _ (Nat.le_of_lt hb)
    rw [if_pos hb, if_pos hb, if_pos hstart]
  · rw [if_neg hb, if_neg hb]

-- No block that is there has an address that is too large.
theorem Fits.address_ne_overflow {d : Device} (hfits : d.Fits) (block : BlockNumber) :
    d.address block ≠ .error .blockOffsetOverflow := by
  rw [address_eq hfits]
  by_cases hb : block.toNat < d.blockCount
  · rw [if_pos hb]
    simp only [ne_eq, reduceCtorEq, not_false_eq_true]
  · rw [if_neg hb]
    simp only [ne_eq, Except.error.injEq, reduceCtorEq, not_false_eq_true]

-- A block has an address exactly if it is there.
theorem Fits.exists_address_iff {d : Device} (hfits : d.Fits) {block : BlockNumber} :
    (∃ start, d.address block = .ok start) ↔ block.toNat < d.blockCount := by
  constructor
  · rintro ⟨start, haddress⟩
    exact lt_of_address haddress
  · intro hb
    exact ⟨_, (address_eq hfits block).trans (if_pos hb)⟩

theorem formatted_create {blockSize blockCount : Nat} {d : Device}
    (hc : create blockSize blockCount = .ok d) :
    d.Formatted ∧ d = ⟨blockSize, Array.replicate blockCount (Bytes.zeros blockSize), 0, false⟩ := by
  rcases fits_create hc with ⟨hfits, _⟩
  have hd : d = ⟨blockSize, Array.replicate blockCount (Bytes.zeros blockSize), 0, false⟩ := by
    unfold create at hc
    split at hc
    · split at hc
      · exact (Except.ok.inj hc).symm
      · exact absurd hc (by simp only [reduceCtorEq, not_false_eq_true])
    · exact absurd hc (by simp only [reduceCtorEq, not_false_eq_true])
  refine ⟨⟨hfits, fun block hblock => ?_⟩, hd⟩
  rw [hd, Array.toList_replicate] at hblock
  rw [List.eq_of_mem_replicate hblock, hd]
  exact Bytes.length_zeros blockSize

theorem Formatted.write {d : Device} (h : d.Formatted) (block : BlockNumber) (data : Bytes) :
    (d.write block data).2.Formatted := by
  refine ⟨h.toFits.write block data, fun stored hstored => ?_⟩
  rcases d.write_cases block data with ⟨⟨hlen, _, _⟩, heq⟩ | ⟨_, e, heq⟩
  · rw [heq, Array.toList_setIfInBounds] at hstored
    rw [heq]
    rcases List.mem_or_eq_of_mem_set hstored with hold | rfl
    · exact h.length_eq stored hold
    · exact hlen
  · rw [heq] at hstored ⊢
    exact h.length_eq stored hstored

theorem Formatted.setFailing {d : Device} (h : d.Formatted) (failing : Bool) :
    (d.setFailing failing).Formatted :=
  ⟨⟨h.pos, h.lt⟩, h.length_eq⟩

/-- Both views of a device are made of the same sizes. -/
theorem create_flat {blockSize blockCount : Nat} {d : Device}
    (hc : create blockSize blockCount = .ok d) :
    FlatDevice.create blockSize blockCount = .ok d.flat := by
  have hd := (formatted_create hc).2
  have hzeros : d.contents = Bytes.zeros (blockSize * blockCount) := by
    rw [hd, contents, Array.toList_replicate, Bytes.zeros, List.flatten_replicate_replicate,
      Bytes.zeros, Nat.mul_comm]
  have hflat : d.flat = ⟨blockSize, blockCount, Bytes.zeros (blockSize * blockCount), 0, false⟩ := by
    rw [flat, hzeros, hd, Device.blockCount, Array.size_replicate]
  unfold create at hc
  unfold FlatDevice.create
  split at hc
  · split at hc
    · rw [if_pos ‹_›, if_pos ‹_›, hflat]
    · exact absurd hc (by simp only [reduceCtorEq, not_false_eq_true])
  · exact absurd hc (by simp only [reduceCtorEq, not_false_eq_true])

-- The end of a block is not behind the end of the device, so it is an address, too.
theorem range?_flat {d : Device} (hfits : d.Fits) (block : BlockNumber) :
    d.flat.range? block = some ((d.address block).map fun start => (start, start + d.blockSize)) := by
  have hsize : d.flat.blockSize = d.blockSize := rfl
  have hcount : d.flat.blockCount = d.blockCount := rfl
  rw [address_eq hfits, FlatDevice.range?, hsize, hcount]
  by_cases hb : block.toNat < d.blockCount
  · have hend : block.toNat * d.blockSize + d.blockSize < addressSpace := by
      refine Nat.lt_of_le_of_lt ?_ hfits.lt
      rw [Nat.mul_comm d.blockSize, ← Nat.succ_mul]
      exact Nat.mul_le_mul_right _ hb
    have hstart : block.toNat * d.blockSize < addressSpace := by omega
    simp only [if_pos hb, if_pos hstart, if_pos hend, Except.map]
  · simp only [if_neg hb, Except.map]

-- The end of a block is not behind the end of the device.
theorem Formatted.place_le {d : Device} (h : d.Formatted) {block : BlockNumber}
    (hb : block.toNat < d.blockCount) :
    block.toNat * d.blockSize + d.blockSize ≤ d.contents.length := by
  rw [contents, Bytes.length_flatten_of_forall h.length_eq, Array.length_toList, ← Nat.succ_mul]
  exact Nat.mul_le_mul_right _ hb

-- The bytes at the place of a block are the block.
theorem Formatted.cut?_contents {d : Device} (h : d.Formatted) {block : BlockNumber}
    (hb : block.toNat < d.blockCount) :
    d.contents.cut? (block.toNat * d.blockSize) (block.toNat * d.blockSize + d.blockSize) =
      some (d.blocks.getD block.toNat []) := by
  have hi : block.toNat < d.blocks.toList.length := by
    rw [Array.length_toList]
    exact hb
  rw [Bytes.cut?_eq_some (h.place_le hb), contents, Bytes.slice_flatten h.length_eq hi,
    Array.getElem_toList, Array.getD_eq_getD_getElem?, Array.getElem?_eq_getElem hb,
    Option.getD_some]
  rfl

-- Putting others there replaces that block and no other.
theorem Formatted.patch?_contents {d : Device} (h : d.Formatted) {block : BlockNumber}
    (hb : block.toNat < d.blockCount) {data : Bytes} (hlen : data.length = d.blockSize) :
    d.contents.patch? (block.toNat * d.blockSize) (block.toNat * d.blockSize + d.blockSize) data =
      some (d.blocks.setIfInBounds block.toNat data).toList.flatten := by
  have hi : block.toNat < d.blocks.toList.length := by
    rw [Array.length_toList]
    exact hb
  rw [Bytes.patch?_eq_some (h.place_le hb) hlen, contents,
    Bytes.splice_flatten h.length_eq hi hlen, Array.toList_setIfInBounds]

/-- Reading a block of the flat view gives what the device gives, and never leaves the string. -/
theorem read?_flat {d : Device} (h : d.Formatted) (block : BlockNumber) :
    d.flat.read? block = some (d.read block) := by
  have hrange := range?_flat h.toFits block
  have haddress := address_eq h.toFits block
  by_cases hb : block.toNat < d.blockCount
  · have hcut : d.flat.bytes.cut? _ _ = some _ := h.cut?_contents hb
    rw [if_pos hb] at haddress
    rw [haddress] at hrange
    simp only [FlatDevice.read?, read, hrange, haddress, Except.map, hcut, Option.map_some]
  · rw [if_neg hb] at haddress
    rw [haddress] at hrange
    simp only [FlatDevice.read?, read, hrange, haddress, Except.map]

/-- Writing a block of the flat view does what the device does, and never leaves the string. -/
theorem write?_flat {d : Device} (h : d.Formatted) (block : BlockNumber) (data : Bytes) :
    d.flat.write? block data = some ((d.write block data).1, (d.write block data).2.flat) := by
  have hsize : d.flat.blockSize = d.blockSize := rfl
  have hfailing : d.flat.failing = d.failing := rfl
  have hrange := range?_flat h.toFits block
  have haddress := address_eq h.toFits block
  by_cases hlen : data.length = d.blockSize
  · by_cases hb : block.toNat < d.blockCount
    · rw [if_pos hb] at haddress
      rw [haddress] at hrange
      by_cases hfail : d.failing = true
      · simp only [FlatDevice.write?, write, hsize, hlen, ne_eq, not_true_eq_false, if_false, hrange,
          haddress, Except.map, hfailing, hfail, if_true]
      · have hpatch : d.flat.bytes.patch? _ _ data = some _ := h.patch?_contents hb hlen
        have hdone : data.length = d.blockSize ∧ (∃ start, d.address block = .ok start) ∧
            d.failing = false := ⟨hlen, ⟨_, haddress⟩, Bool.not_eq_true _ ▸ hfail⟩
        rcases d.write_cases block data with ⟨_, hwritten⟩ | ⟨hrefused, _⟩
        case inr => exact absurd hdone hrefused
        have hcount : (d.blocks.setIfInBounds block.toNat data).size = d.blocks.size :=
          Array.size_setIfInBounds
        simp only [FlatDevice.write?, hsize, hlen, ne_eq, not_true_eq_false, if_false, hrange,
          Except.map, hfailing, hfail, Bool.false_eq_true, hpatch, Option.map_some, hwritten]
        simp only [flat, contents, Device.blockCount, hcount]
    · rw [if_neg hb] at haddress
      rw [haddress] at hrange
      simp only [FlatDevice.write?, write, hsize, hlen, ne_eq, not_true_eq_false, if_false, hrange,
        haddress, Except.map]
  · simp only [FlatDevice.write?, write, hsize, hlen, ne_eq, not_false_eq_true, if_true]

end Device

end BlockJournal
