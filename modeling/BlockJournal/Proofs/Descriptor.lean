import BlockJournal.Bytes.Lemmas
import BlockJournal.Descriptor

/-!
# Descriptors Read Back

What a recovery reads in a descriptor that a commit wrote.

A descriptor is written in three pieces that do not overlap: the header when it is
opened, the entries and the count when it is closed. So the header survives the
entries, and the entries survive the count. A number survives being written as
far as it fits its field, which is what the checks of entries and counts are for.

`parse_close` puts this together: the blocks that went into a descriptor are the
blocks that are read back, in order and none besides, whatever the rest of the
block was filled with.

## Theorems

* `readNat_splice`, `readNat_splice_of_disjoint`: A field after a write.
* `openRevoke_eq_ok`: What opening a descriptor leaves behind.
* `readEntries_flatMap`: Entries read back.
* `parse_eq_ok_iff`: The checks of a reader.
* `parse_close`: A descriptor read back.
-/

namespace BlockJournal

namespace Bytes

-- The check of a range, as inequalities.
theorem bounds_eq_ok_iff {available offset len : Nat} :
    bounds available offset len = .ok () ↔
      offset + len < addressSpace ∧ offset + len ≤ available := by
  unfold bounds
  by_cases hspace : offset + len < addressSpace
  · by_cases havail : offset + len ≤ available
    · simp only [hspace, havail, if_true, and_self]
    · simp only [hspace, havail, if_true, if_false, reduceCtorEq, and_false]
  · simp only [hspace, if_false, reduceCtorEq, false_and]

theorem readNat_eq_ok {data : Bytes} {offset width : Nat}
    (hspace : offset + width < addressSpace) (havail : offset + width ≤ data.length) :
    readNat data offset width = .ok (ofBigEndian (slice data offset width)) := by
  have hbounds := bounds_eq_ok_iff.mpr ⟨hspace, havail⟩
  simp only [readNat, range, hbounds]

-- What a successful write of a number did.
theorem writeNat_eq_ok {data data' : Bytes} {offset width value : Nat}
    (h : writeNat data offset width value = (.ok (), data')) :
    offset + width < addressSpace ∧ offset + width ≤ data.length ∧
      data' = splice data offset (bigEndian width value) := by
  unfold writeNat at h
  cases hbounds : bounds data.length offset width with
  | error e => simp only [hbounds, Prod.mk.injEq, reduceCtorEq, false_and] at h
  | ok =>
      simp only [hbounds, Prod.mk.injEq, true_and] at h
      rcases bounds_eq_ok_iff.mp hbounds with ⟨hspace, havail⟩
      exact ⟨hspace, havail, h.symm⟩

/-- A number that fits its field is read back. -/
theorem readNat_splice {data : Bytes} {offset width value : Nat}
    (hspace : offset + width < addressSpace) (havail : offset + width ≤ data.length)
    (hvalue : value < 256 ^ width) :
    readNat (splice data offset (bigEndian width value)) offset width = .ok value := by
  have hnew : offset + (bigEndian width value).length ≤ data.length := by
    rw [length_bigEndian]
    exact havail
  have hslice := slice_splice_self hnew
  rw [length_bigEndian] at hslice
  rw [readNat_eq_ok hspace (by rw [length_splice hnew]; exact havail), hslice,
    ofBigEndian_bigEndian, Nat.mod_eq_of_lt hvalue]

/-- A write apart from a field does not change the number in it. -/
theorem readNat_splice_of_disjoint {data new : Bytes} {offset start width : Nat}
    (h : offset + new.length ≤ data.length)
    (apart : start + width ≤ offset ∨ offset + new.length ≤ start) :
    readNat (splice data offset new) start width = readNat data start width := by
  unfold readNat range
  rw [length_splice h, slice_splice_of_disjoint h apart]

-- Cutting bytes short does not change a number that is left.
theorem readNat_take {data : Bytes} {len offset width : Nat}
    (h : offset + width ≤ (data.take len).length) :
    readNat (data.take len) offset width = readNat data offset width := by
  have hlen := List.length_take (i := len) (l := data)
  have havail : offset + width ≤ data.length := by omega
  have hslice : slice (data.take len) offset width = slice data offset width := by
    rw [slice, slice, List.drop_take, List.take_take, Nat.min_eq_left (by omega)]
  simp only [readNat, range, bounds, h, havail, if_true, hslice]

@[simp] theorem splice_nil (data : Bytes) (offset : Nat) : splice data offset [] = data := by
  rw [splice, List.append_nil, List.length_nil, Nat.add_zero, List.take_append_drop]

-- What a write leaves behind where it ends, and what it puts where it starts.
theorem drop_splice_of_le {data new : Bytes} {offset start : Nat}
    (havail : offset ≤ data.length) (h : offset + new.length ≤ start) :
    (splice data offset new).drop start = data.drop start := by
  have htake : (data.take offset).length = offset := List.length_take_of_le havail
  rw [splice, List.drop_append, List.drop_eq_nil_of_le, List.nil_append, List.drop_drop,
    List.length_append, htake]
  · congr 1
    omega
  · rw [List.length_append, htake]
    exact h

theorem drop_splice_self {data new : Bytes} {offset : Nat} (havail : offset ≤ data.length) :
    (splice data offset new).drop offset = new ++ data.drop (offset + new.length) := by
  have htake : (data.take offset).length = offset := List.length_take_of_le havail
  rw [splice, List.append_assoc, List.drop_append_of_le_length (Nat.le_of_eq htake.symm),
    List.drop_eq_nil_of_le (Nat.le_of_eq htake), List.nil_append]

/-- Where a field lies apart from another. -/
def Field.Apart (f : Field) (start width : Nat) : Prop :=
  start + width ≤ f.offset ∨ f.offset + f.width ≤ start

-- Fields are stored one after the other, and each has to fit.
theorem writeFields_cons_eq_ok {data data' : Bytes} {f : Field} {rest : List Field}
    (h : writeFields data (f :: rest) = (.ok (), data')) :
    f.offset + f.width < addressSpace ∧ f.offset + f.width ≤ data.length ∧
      writeFields (splice data f.offset (bigEndian f.width f.value)) rest = (.ok (), data') := by
  unfold writeFields at h
  rcases hwrite : writeNat data f.offset f.width f.value with ⟨_ | ⟨⟩, stored⟩
  · simp only [hwrite, Prod.mk.injEq, reduceCtorEq, false_and] at h
  · simp only [hwrite] at h
    rcases writeNat_eq_ok hwrite with ⟨hspace, havail, rfl⟩
    exact ⟨hspace, havail, h⟩

theorem length_writeFields {data data' : Bytes} {fields : List Field}
    (h : writeFields data fields = (.ok (), data')) : data'.length = data.length := by
  induction fields generalizing data with
  | nil =>
      simp only [writeFields, Prod.mk.injEq, true_and] at h
      rw [h]
  | cons f rest ih =>
      rcases writeFields_cons_eq_ok h with ⟨_, havail, hrest⟩
      rw [ih hrest, length_splice (by rw [length_bigEndian]; exact havail)]

-- Fields apart from another do not change the number in it.
theorem readNat_writeFields_of_apart {data data' : Bytes} {fields : List Field}
    (h : writeFields data fields = (.ok (), data')) {start width : Nat}
    (hapart : ∀ f ∈ fields, f.Apart start width) :
    readNat data' start width = readNat data start width := by
  induction fields generalizing data with
  | nil =>
      simp only [writeFields, Prod.mk.injEq, true_and] at h
      rw [h]
  | cons f rest ih =>
      rcases writeFields_cons_eq_ok h with ⟨_, havail, hrest⟩
      rw [ih hrest fun g hg => hapart g (List.mem_cons_of_mem f hg)]
      refine readNat_splice_of_disjoint ?_ ?_
      · rw [length_bigEndian]
        exact havail
      · rw [length_bigEndian]
        exact hapart f List.mem_cons_self

-- Fields that lie apart are all read back.
theorem readNat_writeFields {data data' : Bytes} {fields : List Field}
    (h : writeFields data fields = (.ok (), data'))
    (hapart : fields.Pairwise fun f g => g.Apart f.offset f.width) {f : Field} (hf : f ∈ fields)
    (hvalue : f.value < 256 ^ f.width) :
    readNat data' f.offset f.width = .ok f.value := by
  induction fields generalizing data with
  | nil => exact absurd hf List.not_mem_nil
  | cons g rest ih =>
      rcases writeFields_cons_eq_ok h with ⟨hspace, havail, hrest⟩
      rcases List.pairwise_cons.mp hapart with ⟨hg, hpairs⟩
      rcases List.mem_cons.mp hf with rfl | hf
      · -- It was stored first, and what came after lies apart.
        rw [readNat_writeFields_of_apart hrest hg]
        exact readNat_splice hspace havail hvalue
      · exact ih hrest hpairs hf

end Bytes

-- A header survives everything that is written behind it.
theorem Header.read_splice {data new : Bytes} {offset : Nat} (hoffset : headerSize ≤ offset)
    (h : offset + new.length ≤ data.length) :
    Header.read (data.splice offset new) = Header.read data := by
  have hfield : ∀ start, start + 4 ≤ headerSize →
      Bytes.readNat (data.splice offset new) start 4 = Bytes.readNat data start 4 := by
    intro start hstart
    exact Bytes.readNat_splice_of_disjoint h (Or.inl (Nat.le_trans hstart hoffset))
  unfold Header.read
  rw [hfield 0 (by decide), hfield 4 (by decide), hfield 8 (by decide)]

-- It survives being cut short, too, if it is left.
theorem Header.read_take {data : Bytes} {len : Nat} (h : headerSize ≤ (data.take len).length) :
    Header.read (data.take len) = Header.read data := by
  have hfield : ∀ start, start + 4 ≤ headerSize →
      Bytes.readNat (data.take len) start 4 = Bytes.readNat data start 4 := fun start hstart =>
    Bytes.readNat_take (Nat.le_trans hstart h)
  unfold Header.read
  rw [hfield 0 (by decide), hfield 4 (by decide), hfield 8 (by decide)]

-- A header that was stored is read back, also if more was stored behind it.
theorem Header.read_writeFields {data data' : Bytes} {h : Header} {rest : List Bytes.Field}
    (hwrite : Bytes.writeFields data (h.fields ++ rest) = (.ok (), data'))
    (hrest : rest.Pairwise fun f g => g.Apart f.offset f.width)
    (hbehind : ∀ f ∈ rest, headerSize ≤ f.offset) : Header.read data' = .ok h := by
  have hapart : (h.fields ++ rest).Pairwise fun f g => g.Apart f.offset f.width := by
    refine List.pairwise_append.mpr ⟨?_, hrest, fun f hf g hg => Or.inl ?_⟩
    · simp only [Header.fields, List.pairwise_cons, List.mem_cons, List.not_mem_nil, or_false,
        forall_eq_or_imp, forall_eq, Bytes.Field.Apart, false_implies, implies_true,
        List.Pairwise.nil, and_true]
      omega
    · have hg' := hbehind g hg
      have hf' : f.offset + f.width ≤ headerSize := by
        simp only [Header.fields, List.mem_cons, List.not_mem_nil, or_false] at hf
        rcases hf with rfl | rfl | rfl
        · exact Nat.le_of_ble_eq_true rfl
        · exact Nat.le_of_ble_eq_true rfl
        · exact Nat.le_of_ble_eq_true rfl
      omega
  have hfield : ∀ f ∈ h.fields, f.value < 256 ^ f.width →
      Bytes.readNat data' f.offset f.width = .ok f.value := fun f hf hvalue =>
    Bytes.readNat_writeFields hwrite hapart (List.mem_append_left rest hf) hvalue
  have hmagic := hfield ⟨0, 4, magicNumber.toNat⟩ (by simp only [Header.fields, List.mem_cons,
    true_or]) (UInt32.toNat_lt _)
  have htype := hfield ⟨4, 4, h.blockType.toNat⟩ (by simp only [Header.fields, List.mem_cons,
    true_or, or_true]) (UInt32.toNat_lt _)
  have htid := hfield ⟨8, 4, h.sequence.toNat⟩ (by simp only [Header.fields, List.mem_cons,
    true_or, or_true]) (UInt32.toNat_lt _)
  simp only [] at hmagic htype htid
  simp only [Header.read, hmagic, htype, htid, if_true, UInt32.ofNat_toNat, Tid.ofNat, Tid.toNat]

/-- A descriptor that was opened has room for its header, and a reader finds the header
    of a revoke descriptor of the transaction. -/
theorem openRevoke_eq_ok {data data' : Bytes} {sequence : Tid}
    (h : openRevoke data sequence = (.ok (), data')) :
    data'.length = data.length ∧ Header.read data' = .ok ⟨BlockKind.revoke.code, sequence⟩ := by
  refine ⟨Bytes.length_writeFields h, Header.read_writeFields h (List.pairwise_singleton _ _) ?_⟩
  simp only [List.mem_singleton, forall_eq, countOffset, Nat.le_refl]

namespace RecordWidth

theorem bytes_pos (width : RecordWidth) : 0 < width.bytes := by
  cases width <;> decide

end RecordWidth

@[simp] theorem length_entryBytes (width : RecordWidth) (b : BlockNumber) :
    (entryBytes width b).length = width.bytes :=
  Bytes.length_bigEndian _ _

theorem length_flatMap_entryBytes (width : RecordWidth) (blocks : List BlockNumber) :
    (blocks.flatMap (entryBytes width)).length = width.bytes * blocks.length := by
  induction blocks with
  | nil => rfl
  | cons b blocks ih =>
      rw [List.flatMap_cons, List.length_append, ih, length_entryBytes, List.length_cons,
        Nat.mul_succ]
      omega

-- A block that fits an entry is read back from it.
theorem ofNat_ofBigEndian_entryBytes {width : RecordWidth} {b : BlockNumber}
    (h : width.fits b = true) : BlockNumber.ofNat (Bytes.ofBigEndian (entryBytes width b)) = b := by
  have hlt : b.toNat < 256 ^ width.bytes := of_decide_eq_true h
  rw [entryBytes, Bytes.ofBigEndian_bigEndian, Nat.mod_eq_of_lt hlt, BlockNumber.ofNat,
    BlockNumber.toNat, UInt64.ofNat_toNat]

namespace RevokeBlock

/-- Entries that fit are read back in order, whatever comes after them. -/
theorem readEntries_flatMap {width : RecordWidth} {blocks : List BlockNumber}
    (hfits : ∀ b ∈ blocks, width.fits b = true) (offset : Nat) (rest : Bytes) :
    readEntries width blocks.length offset (blocks.flatMap (entryBytes width) ++ rest) =
      .ok blocks := by
  induction blocks generalizing offset with
  | nil => rfl
  | cons b blocks ih =>
      have htake : (entryBytes width b ++ (blocks.flatMap (entryBytes width) ++ rest)).take
          width.bytes = entryBytes width b := by
        rw [← length_entryBytes width b, List.take_left]
      have hdrop : (entryBytes width b ++ (blocks.flatMap (entryBytes width) ++ rest)).drop
          width.bytes = blocks.flatMap (entryBytes width) ++ rest := by
        rw [← length_entryBytes width b, List.drop_left]
      rw [List.flatMap_cons, List.append_assoc]
      simp only [List.length_cons, readEntries, htake, hdrop, length_entryBytes, if_true,
        ih (fun b hb => hfits b (List.mem_cons_of_mem _ hb)),
        ofNat_ofBigEndian_entryBytes (hfits b List.mem_cons_self)]

-- As many entries are read as were asked for.
theorem length_readEntries {width : RecordWidth} {count offset : Nat} {rest : Bytes}
    {blocks : List BlockNumber} (h : readEntries width count offset rest = .ok blocks) :
    blocks.length = count := by
  induction count generalizing offset rest blocks with
  | zero =>
      simp only [readEntries, Except.ok.injEq] at h
      rw [← h]
      rfl
  | succ count ih =>
      unfold readEntries at h
      by_cases hfield : (rest.take width.bytes).length = width.bytes
      · cases hrest : readEntries width count (offset + width.bytes) (rest.drop width.bytes) with
        | error e => simp only [hfield, if_true, hrest, reduceCtorEq] at h
        | ok blocks' =>
            simp only [hfield, if_true, hrest, Except.ok.injEq] at h
            rw [← h, List.length_cons, ih hrest]
      · simp only [hfield, if_false, reduceCtorEq] at h

/-- What reading a revoke descriptor asks for, one check after the other. -/
theorem parse_eq_ok_iff {data : Bytes} {width : RecordWidth} {r : RevokeBlock} :
    parse data width = .ok r ↔
      ∃ used, Header.read data = .ok ⟨BlockKind.revoke.code, r.sequence⟩ ∧
        Bytes.readNat data countOffset 4 = .ok used ∧
        revokeHeaderSize ≤ used ∧ used ≤ data.length ∧
        (used - revokeHeaderSize) % width.bytes = 0 ∧
        readEntries width ((used - revokeHeaderSize) / width.bytes) revokeHeaderSize
          (data.drop revokeHeaderSize) = .ok r.blocks := by
  constructor
  · intro h
    unfold parse at h
    cases hheader : Header.read data with
    | error e => simp only [hheader, reduceCtorEq] at h
    | ok header =>
        by_cases htype : header.blockType = BlockKind.revoke.code
        · cases hcount : Bytes.readNat data countOffset 4 with
          | error e => simp only [hheader, htype, ne_eq, not_true_eq_false, if_false, hcount,
              reduceCtorEq] at h
          | ok used =>
              simp only [hheader, htype, ne_eq, not_true_eq_false, if_false, hcount] at h
              split at h
              · exact absurd h (by simp only [reduceCtorEq, not_false_eq_true])
              · split at h
                · exact absurd h (by simp only [reduceCtorEq, not_false_eq_true])
                · split at h
                  · exact absurd h (by simp only [reduceCtorEq, not_false_eq_true])
                  · rename_i hbelow hbeyond hwhole
                    split at h
                    · exact absurd h (by simp only [reduceCtorEq, not_false_eq_true])
                    · rename_i blocks hentries
                      rw [Except.ok.injEq] at h
                      subst h
                      exact ⟨used, by rw [← htype], rfl, Nat.le_of_not_lt hbelow,
                        Nat.le_of_not_lt hbeyond, Decidable.of_not_not hwhole, hentries⟩
        · simp only [hheader, ne_eq, htype, not_false_eq_true, if_true, reduceCtorEq] at h
  · rintro ⟨used, hheader, hcount, hbelow, hbeyond, hwhole, hentries⟩
    simp only [parse, hheader, hcount, ne_eq, not_true_eq_false, if_false,
      Nat.not_lt.mpr hbelow, Nat.not_lt.mpr hbeyond, hwhole, hentries]

-- A descriptor has no more entries than its block has bytes.
theorem length_le_of_parse {data : Bytes} {width : RecordWidth} {r : RevokeBlock}
    (h : parse data width = .ok r) : r.blocks.length ≤ data.length := by
  rcases parse_eq_ok_iff.mp h with ⟨used, _, _, _, hused, _, hentries⟩
  rw [length_readEntries hentries]
  exact Nat.le_trans (Nat.div_le_self _ _) (Nat.le_trans (Nat.sub_le _ _) hused)

-- Its count is that of its entries.
theorem count_of_parse {data : Bytes} {width : RecordWidth} {r : RevokeBlock}
    (h : parse data width = .ok r) :
    Bytes.readNat data countOffset 4 =
      .ok (revokeHeaderSize + width.bytes * r.blocks.length) := by
  rcases parse_eq_ok_iff.mp h with ⟨used, _, hcount, hheader, _, hwhole, hentries⟩
  rw [length_readEntries hentries, Nat.mul_div_cancel' (Nat.dvd_of_mod_eq_zero hwhole),
    Nat.add_sub_cancel' hheader]
  exact hcount

-- Only what starts like a revoke descriptor is read as one.
theorem header_of_parse {data : Bytes} {width : RecordWidth} {r : RevokeBlock}
    (h : parse data width = .ok r) :
    Header.read data = .ok ⟨BlockKind.revoke.code, r.sequence⟩ := by
  rcases parse_eq_ok_iff.mp h with ⟨_, hheader, _⟩
  exact hheader

/-- Whatever can be read as a revoke descriptor passes the test a scan makes before it
    reads a block. -/
theorem isRevokeBlock_of_parse {data : Bytes} {width : RecordWidth} {r : RevokeBlock}
    (h : parse data width = .ok r) : isRevokeBlock data = true := by
  simp only [isRevokeBlock, header_of_parse h, BEq.rfl]

-- A block that starts with the header of a revoke descriptor, a count and as many
-- entries is read as these entries, whatever comes after them.
theorem parse_eq_ok {data rest : Bytes} {width : RecordWidth} {blocks : List BlockNumber}
    {sequence : Tid} (hfits : ∀ b ∈ blocks, width.fits b = true)
    (hheader : Header.read data = .ok ⟨BlockKind.revoke.code, sequence⟩)
    (hcount : Bytes.readNat data countOffset 4 =
      .ok (revokeHeaderSize + width.bytes * blocks.length))
    (hlen : revokeHeaderSize + width.bytes * blocks.length ≤ data.length)
    (hentries : data.drop revokeHeaderSize = blocks.flatMap (entryBytes width) ++ rest) :
    parse data width = .ok ⟨sequence, blocks⟩ := by
  refine parse_eq_ok_iff.mpr ⟨_, hheader, hcount, Nat.le_add_right _ _, hlen, ?_, ?_⟩
  · rw [Nat.add_sub_cancel_left, Nat.mul_mod_right]
  · rw [Nat.add_sub_cancel_left, Nat.mul_div_cancel_left _ width.bytes_pos, hentries,
      readEntries_flatMap hfits]

-- There is room for the header of a descriptor that was closed.
theorem headerSize_le_of_close {data data' : Bytes} {used : Nat}
    (hclose : closeRevoke data used = (.ok (), data')) : revokeHeaderSize ≤ data.length := by
  unfold closeRevoke at hclose
  by_cases hused : used < UInt32.size
  · rw [if_pos hused] at hclose
    exact (Bytes.writeNat_eq_ok hclose).2.1
  · rw [if_neg hused, Prod.mk.injEq] at hclose
    exact absurd hclose.1 (by simp only [reduceCtorEq, not_false_eq_true])

-- There is room for everything that went into it.
theorem room_of_close {data data' : Bytes} {width : RecordWidth} {blocks : List BlockNumber}
    (hroom : blocks ≠ [] → revokeHeaderSize + width.bytes * blocks.length ≤ data.length)
    (hclose : closeRevoke (writeEntries data blocks width)
      (revokeHeaderSize + width.bytes * blocks.length) = (.ok (), data')) :
    revokeHeaderSize + width.bytes * blocks.length ≤ data.length := by
  by_cases hempty : blocks = []
  · subst hempty
    simp only [writeEntries, List.flatMap_nil, Bytes.splice_nil] at hclose
    exact headerSize_le_of_close hclose
  · exact hroom hempty

-- What a descriptor that was filled and closed has in it: the header it had, the
-- count, and the entries.
theorem closed_fields {data data' : Bytes} {width : RecordWidth} {blocks : List BlockNumber}
    (hroom : blocks ≠ [] → revokeHeaderSize + width.bytes * blocks.length ≤ data.length)
    (hclose : closeRevoke (writeEntries data blocks width)
      (revokeHeaderSize + width.bytes * blocks.length) = (.ok (), data')) :
    Header.read data' = Header.read data ∧
      Bytes.readNat data' countOffset 4 = .ok (revokeHeaderSize + width.bytes * blocks.length) ∧
      revokeHeaderSize + width.bytes * blocks.length ≤ data'.length ∧
      ∃ rest, data'.drop revokeHeaderSize = blocks.flatMap (entryBytes width) ++ rest := by
  let filled := writeEntries data blocks width
  let used := revokeHeaderSize + width.bytes * blocks.length
  have hentries := length_flatMap_entryBytes width blocks
  have hroom : used ≤ data.length := room_of_close hroom hclose
  have hfit : revokeHeaderSize + (blocks.flatMap (entryBytes width)).length ≤ data.length := by
    rw [hentries]
    exact hroom
  have hfilled : filled.length = data.length := Bytes.length_splice hfit
  by_cases hused : used < UInt32.size
  · rw [closeRevoke, if_pos hused] at hclose
    rcases Bytes.writeNat_eq_ok hclose with ⟨hspace, havail, rfl⟩
    have hnew : countOffset + (Bytes.bigEndian 4 used).length ≤ filled.length := by
      rw [Bytes.length_bigEndian]
      exact havail
    refine ⟨?_, Bytes.readNat_splice hspace havail hused, ?_, data.drop (revokeHeaderSize +
      (blocks.flatMap (entryBytes width)).length), ?_⟩
    · -- The header was not touched again.
      exact (Header.read_splice (Nat.le_refl _) hnew).trans (Header.read_splice (by decide) hfit)
    · rw [Bytes.length_splice hnew, hfilled]
      exact hroom
    · -- The entries start where the count ends.
      rw [Bytes.drop_splice_of_le (Nat.le_trans (Nat.le_add_right _ 4) havail)
        (by rw [Bytes.length_bigEndian]; decide)]
      exact Bytes.drop_splice_self (Nat.le_trans (Nat.le_add_right _ _) hroom)
  · rw [closeRevoke, if_neg hused, Prod.mk.injEq] at hclose
    exact absurd hclose.1 (by simp only [reduceCtorEq, not_false_eq_true])

/-- A descriptor that was filled and closed is read back as what went into it. -/
theorem parse_close {data data' : Bytes} {width : RecordWidth} {blocks : List BlockNumber}
    {sequence : Tid} (hfits : ∀ b ∈ blocks, width.fits b = true)
    (hroom : blocks ≠ [] → revokeHeaderSize + width.bytes * blocks.length ≤ data.length)
    (hheader : Header.read data = .ok ⟨BlockKind.revoke.code, sequence⟩)
    (hclose : closeRevoke (writeEntries data blocks width)
      (revokeHeaderSize + width.bytes * blocks.length) = (.ok (), data')) :
    parse data' width = .ok ⟨sequence, blocks⟩ := by
  rcases closed_fields hroom hclose with ⟨hkept, hcount, hlen, rest, hentries⟩
  exact parse_eq_ok hfits (hkept.trans hheader) hcount hlen hentries

-- Whatever is read in a descriptor that was filled and closed is what went into it.
theorem blocks_of_parse_close {data data' : Bytes} {width : RecordWidth}
    {blocks : List BlockNumber} (hfits : ∀ b ∈ blocks, width.fits b = true)
    (hroom : blocks ≠ [] → revokeHeaderSize + width.bytes * blocks.length ≤ data.length)
    (hclose : closeRevoke (writeEntries data blocks width)
      (revokeHeaderSize + width.bytes * blocks.length) = (.ok (), data'))
    {r : RevokeBlock} (hparse : parse data' width = .ok r) : r.blocks = blocks := by
  have hheader := header_of_parse hparse
  rw [(closed_fields hroom hclose).1] at hheader
  rw [parse_close hfits hroom hheader hclose, Except.ok.injEq] at hparse
  rw [← hparse]

end RevokeBlock

end BlockJournal
