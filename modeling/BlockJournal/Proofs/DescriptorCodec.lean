import BlockJournal.Proofs.Descriptor

/-!
# The Code of a Descriptor

Which blocks are read as revoke descriptors, and how reading and writing undo each
other.

What a descriptor says has one image in bytes: the magic number, the kind of block,
the transaction, the number of bytes in use, and the entries, one directly behind the
other. Both directions are about this image. A writer goes through the fields from
the front, so that at any time the block is what was stored so far and then what it
held before (`writeFields_of_consecutive`); when the count is filled in at the end,
the image is complete and the bytes behind it are the old ones (`write_eq`). A reader
accepts a block if and only if it starts with the image of something, and returns just
that (`parse_eq_ok_iff_image`).

`Layout` describes the accepted blocks once more, without reference to a writer, by
the numbers that stand at fixed offsets.

## Main definitions

* `storeEntries`: Entries stored one at a time.
* `RevokeBlock.write`: A descriptor from its header to its count.
* `RevokeBlock.image`: The bytes of a descriptor up to its count.
* `Layout`: The numbers in a block that is a revoke descriptor.

## Theorems

* `RevokeBlock.write_eq`: What writing a descriptor leaves behind.
* `RevokeBlock.parse_eq_ok_iff_image`: What is read as a descriptor.
* `exists_parse_iff`: Which blocks are read as a descriptor.
* `descriptor_codec`: Reading and writing are inverse to each other.
-/

namespace BlockJournal

namespace Bytes

-- What a number that was read says about the bytes it was read from.
theorem readNat_eq_ok_iff {data : Bytes} {offset width value : Nat} :
    readNat data offset width = .ok value ↔
      offset + width < addressSpace ∧ offset + width ≤ data.length ∧
        ofBigEndian (slice data offset width) = value := by
  constructor
  · intro h
    unfold readNat range at h
    cases hbounds : bounds data.length offset width with
    | error e => simp only [hbounds, reduceCtorEq] at h
    | ok =>
        simp only [hbounds, Except.ok.injEq] at h
        rcases bounds_eq_ok_iff.mp hbounds with ⟨hspace, havail⟩
        exact ⟨hspace, havail, h⟩
  · rintro ⟨hspace, havail, rfl⟩
    exact readNat_eq_ok hspace havail

theorem lt_of_readNat {data : Bytes} {offset width value : Nat}
    (h : readNat data offset width = .ok value) : value < 256 ^ width := by
  rcases readNat_eq_ok_iff.mp h with ⟨_, havail, rfl⟩
  have hlt := ofBigEndian_lt (slice data offset width)
  rw [length_slice havail] at hlt
  exact hlt

/-- Bytes that were read as a number are the bytes of that number. -/
theorem drop_of_readNat {data : Bytes} {offset width value : Nat}
    (h : readNat data offset width = .ok value) :
    data.drop offset = bigEndian width value ++ data.drop (offset + width) := by
  rcases readNat_eq_ok_iff.mp h with ⟨_, havail, rfl⟩
  have hfield := bigEndian_ofBigEndian (slice data offset width)
  rw [length_slice havail] at hfield
  rw [hfield, slice, ← List.drop_drop, List.take_append_drop]

/-- The bytes of a number are read as that number. -/
theorem readNat_of_drop {data rest : Bytes} {offset width value : Nat}
    (hspace : offset + width < addressSpace) (hwidth : 0 < width) (hvalue : value < 256 ^ width)
    (h : data.drop offset = bigEndian width value ++ rest) :
    readNat data offset width = .ok value := by
  have hlen := congrArg List.length h
  rw [List.length_drop, List.length_append, length_bigEndian] at hlen
  have htake : (bigEndian width value ++ rest).take width = bigEndian width value :=
    List.take_left' (length_bigEndian width value)
  refine readNat_eq_ok_iff.mpr ⟨hspace, by omega, ?_⟩
  rw [slice, h, htake, ofBigEndian_bigEndian, Nat.mod_eq_of_lt hvalue]

/-- A number that is stored takes the place of the bytes that were there. -/
theorem writeNat_between (front : Bytes) {old back : Bytes} {width value : Nat}
    (hspace : front.length + width < addressSpace) (hold : old.length = width) :
    writeNat (front ++ (old ++ back)) front.length width value =
      (.ok (), front ++ (bigEndian width value ++ back)) := by
  have havail : front.length + width ≤ (front ++ (old ++ back)).length := by
    rw [List.length_append, List.length_append]
    omega
  have hdrop : (front ++ (old ++ back)).drop (front.length + width) = back := by
    rw [← List.drop_drop, List.drop_left, List.drop_left' hold]
  rw [writeNat, bounds_eq_ok_iff.mpr ⟨hspace, havail⟩]
  simp only [splice, length_bigEndian, List.take_left, hdrop, List.append_assoc]

/-- Fields that lie one directly behind the other from an offset on. -/
def Consecutive : Nat → List Field → Prop
  | _, [] => True
  | offset, f :: rest => f.offset = offset ∧ Consecutive (offset + f.width) rest

/-- The bytes of fields. -/
def fieldBytes (fields : List Field) : Bytes := fields.flatMap fun f => bigEndian f.width f.value

/-- Consecutive fields are put behind what was stored before, and the rest of the block is
    what it was. -/
theorem writeFields_of_consecutive (data front : Bytes) {fields : List Field}
    (hnext : Consecutive front.length fields)
    (hspace : front.length + (fieldBytes fields).length < addressSpace)
    (hroom : front.length + (fieldBytes fields).length ≤ data.length) :
    writeFields (front ++ data.drop front.length) fields =
      (.ok (), front ++ fieldBytes fields ++
        data.drop (front.length + (fieldBytes fields).length)) := by
  induction fields generalizing front with
  | nil => simp only [writeFields, fieldBytes, List.flatMap_nil, List.append_nil, List.length_nil,
      Nat.add_zero]
  | cons f rest ih =>
      rcases hnext with ⟨hoffset, hnext⟩
      have hbytes : fieldBytes (f :: rest) = bigEndian f.width f.value ++ fieldBytes rest := rfl
      rw [hbytes, List.length_append, length_bigEndian] at hspace hroom
      -- What the field is stored over is the next part of the old bytes.
      have hsplit : data.drop front.length =
          (data.drop front.length).take f.width ++ data.drop (front.length + f.width) := by
        rw [← List.drop_drop, List.take_append_drop]
      have hold : ((data.drop front.length).take f.width).length = f.width := by
        rw [List.length_take, List.length_drop]
        omega
      have hfront : (front ++ bigEndian f.width f.value).length = front.length + f.width := by
        rw [List.length_append, length_bigEndian]
      have hrest := ih (front ++ bigEndian f.width f.value) (by rw [hfront]; exact hnext)
        (by rw [hfront]; omega) (by rw [hfront]; omega)
      rw [hfront, List.append_assoc] at hrest
      rw [hsplit, writeFields, hoffset, writeNat_between front (by omega) hold]
      simp only [hrest, hbytes, List.length_append, length_bigEndian, List.append_assoc,
        Nat.add_assoc]

end Bytes

namespace Header

/-- The numbers in a header that was read. -/
theorem read_eq_ok_iff {data : Bytes} {h : Header} :
    read data = .ok h ↔
      Bytes.readNat data 0 4 = .ok magicNumber.toNat ∧
        Bytes.readNat data 4 4 = .ok h.blockType.toNat ∧
        Bytes.readNat data 8 4 = .ok h.sequence.toNat := by
  constructor
  · intro hread
    unfold read at hread
    cases hmagic : Bytes.readNat data 0 4 with
    | error e => simp only [hmagic, reduceCtorEq] at hread
    | ok found =>
        by_cases hfound : found = magicNumber.toNat
        · cases hkind : Bytes.readNat data 4 4 with
          | error e => simp only [hmagic, hfound, if_true, hkind, reduceCtorEq] at hread
          | ok kind =>
              cases htid : Bytes.readNat data 8 4 with
              | error e => simp only [hmagic, hfound, if_true, hkind, htid, reduceCtorEq] at hread
              | ok tid =>
                  simp only [hmagic, hfound, if_true, hkind, htid, Except.ok.injEq] at hread
                  subst hread
                  refine ⟨by rw [hfound], ?_, ?_⟩
                  · rw [UInt32.toNat_ofNat_of_lt' (Bytes.lt_of_readNat hkind)]
                  · rw [Tid.ofNat, Tid.toNat, UInt32.toNat_ofNat_of_lt' (Bytes.lt_of_readNat htid)]
        · simp only [hmagic, hfound, if_false, reduceCtorEq] at hread
  · rintro ⟨hmagic, hkind, htid⟩
    simp only [read, hmagic, hkind, htid, if_true, UInt32.ofNat_toNat, Tid.ofNat, Tid.toNat]

end Header

/-- Store entries one after the other from an offset on, up to the first that cannot be
    stored. -/
def storeEntries (data : Bytes) (offset : Nat) (width : RecordWidth) :
    List BlockNumber → Except FieldError Unit × Bytes
  | [] => (.ok (), data)
  | b :: rest =>
      match writeEntry data offset b width with
      | (.ok (), data) => storeEntries data (offset + width.bytes) width rest
      | (.error e, data) => (.error e, data)

/-- Entries as fields of a block. -/
def entryFields (width : RecordWidth) : Nat → List BlockNumber → List Bytes.Field
  | _, [] => []
  | offset, b :: rest =>
      ⟨offset, width.bytes, b.toNat⟩ :: entryFields width (offset + width.bytes) rest

theorem consecutive_entryFields (width : RecordWidth) (offset : Nat) (blocks : List BlockNumber) :
    Bytes.Consecutive offset (entryFields width offset blocks) := by
  induction blocks generalizing offset with
  | nil => trivial
  | cons b rest ih => exact ⟨rfl, ih (offset + width.bytes)⟩

theorem fieldBytes_entryFields (width : RecordWidth) (offset : Nat) (blocks : List BlockNumber) :
    Bytes.fieldBytes (entryFields width offset blocks) = blocks.flatMap (entryBytes width) := by
  induction blocks generalizing offset with
  | nil => rfl
  | cons b rest ih =>
      change entryBytes width b ++ Bytes.fieldBytes (entryFields width _ rest) = _
      rw [ih, List.flatMap_cons]

-- Blocks that fit their entries are stored like any other numbers.
theorem storeEntries_eq_writeFields {width : RecordWidth} {blocks : List BlockNumber}
    (hfits : ∀ b ∈ blocks, width.fits b = true) (data : Bytes) (offset : Nat) :
    storeEntries data offset width blocks =
      Bytes.writeFields data (entryFields width offset blocks) := by
  induction blocks generalizing data offset with
  | nil => rfl
  | cons b rest ih =>
      have hentry : writeEntry data offset b width =
          Bytes.writeNat data offset width.bytes b.toNat := by
        rw [writeEntry, checkEntry, if_pos (hfits b List.mem_cons_self)]
        rfl
      have hrest := fun data => ih (fun other hother => hfits other (List.mem_cons_of_mem _ hother))
        data (offset + width.bytes)
      rcases hstored : Bytes.writeNat data offset width.bytes b.toNat with ⟨cause | ⟨⟩, data'⟩
      · simp only [storeEntries, entryFields, Bytes.writeFields, hentry, hstored]
      · simp only [storeEntries, entryFields, Bytes.writeFields, hentry, hstored, hrest]

/-- Entries that fit are put behind what was stored before, and the rest of the block is what
    it was. -/
theorem storeEntries_eq {data : Bytes} (front : Bytes) {width : RecordWidth}
    {blocks : List BlockNumber} (hfits : ∀ b ∈ blocks, width.fits b = true)
    (hspace : front.length + width.bytes * blocks.length < addressSpace)
    (hroom : front.length + width.bytes * blocks.length ≤ data.length) :
    storeEntries (front ++ data.drop front.length) front.length width blocks =
      (.ok (), front ++ blocks.flatMap (entryBytes width) ++
        data.drop (front.length + width.bytes * blocks.length)) := by
  have hbytes := fieldBytes_entryFields width front.length blocks
  have hstore := Bytes.writeFields_of_consecutive data front
    (consecutive_entryFields width front.length blocks)
  rw [hbytes, length_flatMap_entryBytes] at hstore
  rw [storeEntries_eq_writeFields hfits, hstore hspace hroom]

/-- The bytes of a descriptor up to the place of its count. -/
def leadBytes (sequence : Tid) : Bytes :=
  Bytes.bigEndian 4 magicNumber.toNat ++ (Bytes.bigEndian 4 BlockKind.revoke.code.toNat ++
    Bytes.bigEndian 4 sequence.toNat)

/-- Opening a descriptor puts its header at the front of a block, with a count of zero. -/
theorem openRevoke_eq {data : Bytes} (hroom : revokeHeaderSize ≤ data.length) (sequence : Tid) :
    openRevoke data sequence =
      (.ok (), leadBytes sequence ++ Bytes.bigEndian 4 0 ++ data.drop revokeHeaderSize) := by
  let fields : List Bytes.Field :=
    Header.fields ⟨BlockKind.revoke.code, sequence⟩ ++ [⟨countOffset, 4, 0⟩]
  have hnext : Bytes.Consecutive 0 fields := ⟨rfl, rfl, rfl, rfl, trivial⟩
  have hlen : (Bytes.fieldBytes fields).length = revokeHeaderSize := rfl
  have hopen := Bytes.writeFields_of_consecutive data [] hnext
    (by rw [hlen]; decide) (by rw [hlen]; exact Nat.le_trans (Nat.le_of_eq (Nat.zero_add _)) hroom)
  rw [hlen] at hopen
  exact hopen

/-- Closing a descriptor fills in its count. -/
theorem closeRevoke_eq {sequence : Tid} {used : Nat} (hused : used < UInt32.size) (rest : Bytes) :
    closeRevoke (leadBytes sequence ++ (Bytes.bigEndian 4 0 ++ rest)) used =
      (.ok (), leadBytes sequence ++ (Bytes.bigEndian 4 used ++ rest)) := by
  rw [closeRevoke, if_pos hused]
  exact Bytes.writeNat_between (leadBytes sequence)
    (Nat.lt_of_lt_of_le (by decide : 16 < 17) (by decide)) (Bytes.length_bigEndian 4 0)

-- A number that an entry can hold is a block number.
theorem toNat_ofNat_of_lt_width {width : RecordWidth} {n : Nat} (h : n < 256 ^ width.bytes) :
    (BlockNumber.ofNat n).toNat = n := by
  have hword : n < UInt64.size :=
    Nat.lt_of_lt_of_le h (by cases width <;> decide)
  exact UInt64.toNat_ofNat_of_lt' hword

namespace RevokeBlock

/-- The number of bytes in use in a descriptor, header included. -/
def size (r : RevokeBlock) (width : RecordWidth) : Nat :=
  revokeHeaderSize + width.bytes * r.blocks.length

/-- The bytes of a descriptor that are in use. -/
def image (r : RevokeBlock) (width : RecordWidth) : Bytes :=
  leadBytes r.sequence ++ (Bytes.bigEndian 4 (r.size width) ++
    r.blocks.flatMap (entryBytes width))

/-- Write a descriptor over a block: the header, the entries one at a time, and the count. -/
def write (r : RevokeBlock) (width : RecordWidth) (data : Bytes) : Except FieldError Unit × Bytes :=
  match openRevoke data r.sequence with
  | (.error e, data) => (.error e, data)
  | (.ok (), data) =>
      match storeEntries data revokeHeaderSize width r.blocks with
      | (.error e, data) => (.error e, data)
      | (.ok (), data) => closeRevoke data (r.size width)

@[simp] theorem length_image (r : RevokeBlock) (width : RecordWidth) :
    (r.image width).length = r.size width := by
  simp only [image, leadBytes, size, List.length_append, Bytes.length_bigEndian,
    length_flatMap_entryBytes, revokeHeaderSize]
  omega

/-- Writing a descriptor puts its image at the front of a block and does not touch the
    rest. -/
theorem write_eq {r : RevokeBlock} {width : RecordWidth} {data : Bytes}
    (hfits : ∀ b ∈ r.blocks, width.fits b = true) (hsize : r.size width < UInt32.size)
    (hroom : r.size width ≤ data.length) :
    r.write width data = (.ok (), r.image width ++ data.drop (r.size width)) := by
  have hstore : storeEntries (leadBytes r.sequence ++ Bytes.bigEndian 4 0 ++
      data.drop revokeHeaderSize) revokeHeaderSize width r.blocks =
      (.ok (), leadBytes r.sequence ++ Bytes.bigEndian 4 0 ++ r.blocks.flatMap (entryBytes width) ++
        data.drop (r.size width)) :=
    storeEntries_eq (leadBytes r.sequence ++ Bytes.bigEndian 4 0) hfits
      (Nat.lt_trans hsize (by decide)) hroom
  simp only [write, openRevoke_eq (Nat.le_trans (Nat.le_add_right _ _) hroom) r.sequence, hstore]
  simp only [List.append_assoc, closeRevoke_eq hsize, image]

-- Entries that were read stand in the block one behind the other, and they fit.
theorem bytes_of_readEntries {width : RecordWidth} {count offset : Nat} {rest : Bytes}
    {blocks : List BlockNumber} (h : readEntries width count offset rest = .ok blocks) :
    (∀ b ∈ blocks, width.fits b = true) ∧
      ∃ tail, rest = blocks.flatMap (entryBytes width) ++ tail := by
  induction count generalizing offset rest blocks with
  | zero =>
      simp only [readEntries, Except.ok.injEq] at h
      subst h
      exact ⟨fun b hb => absurd hb List.not_mem_nil, rest, rfl⟩
  | succ count ih =>
      unfold readEntries at h
      by_cases hfield : (rest.take width.bytes).length = width.bytes
      · cases hrest : readEntries width count (offset + width.bytes) (rest.drop width.bytes) with
        | error e => simp only [hfield, if_true, hrest, reduceCtorEq] at h
        | ok blocks' =>
            simp only [hfield, if_true, hrest, Except.ok.injEq] at h
            subst h
            rcases ih hrest with ⟨hfits, tail, htail⟩
            have hlt := Bytes.ofBigEndian_lt (rest.take width.bytes)
            rw [hfield] at hlt
            have hnumber := toNat_ofNat_of_lt_width hlt
            refine ⟨?_, tail, ?_⟩
            · intro b hb
              rcases List.mem_cons.mp hb with rfl | hb
              · exact decide_eq_true (Nat.lt_of_le_of_lt (Nat.le_of_eq hnumber) hlt)
              · exact hfits b hb
            · have hbytes := Bytes.bigEndian_ofBigEndian (rest.take width.bytes)
              rw [hfield] at hbytes
              rw [List.flatMap_cons, entryBytes, hnumber, hbytes, List.append_assoc, ← htail,
                List.take_append_drop]
      · simp only [hfield, if_false, reduceCtorEq] at h

-- As many entries as the block has bytes for can be read.
theorem exists_readEntries {width : RecordWidth} {count : Nat} {rest : Bytes}
    (hroom : width.bytes * count ≤ rest.length) (offset : Nat) :
    ∃ blocks, readEntries width count offset rest = .ok blocks := by
  induction count generalizing offset rest with
  | zero => exact ⟨[], rfl⟩
  | succ count ih =>
      rw [Nat.mul_succ] at hroom
      have hfield : (rest.take width.bytes).length = width.bytes :=
        List.length_take_of_le (by omega)
      have hleft : width.bytes * count ≤ (rest.drop width.bytes).length := by
        rw [List.length_drop]
        omega
      rcases ih hleft (offset + width.bytes) with ⟨blocks, hblocks⟩
      exact ⟨_, by simp only [readEntries, hfield, if_true, hblocks]; rfl⟩

/-- A block is read as a descriptor if and only if it starts with the image of what is read,
    and every image that can be written is read. -/
theorem parse_eq_ok_iff_image {data : Bytes} {width : RecordWidth} {r : RevokeBlock} :
    parse data width = .ok r ↔
      (∀ b ∈ r.blocks, width.fits b = true) ∧ r.size width < UInt32.size ∧
        ∃ rest, data = r.image width ++ rest := by
  constructor
  · intro h
    rcases parse_eq_ok_iff.mp h with ⟨_, hheader, _, _, _, _, hentries⟩
    rcases Header.read_eq_ok_iff.mp hheader with ⟨hmagic, hkind, htid⟩
    rcases bytes_of_readEntries hentries with ⟨hfits, tail, htail⟩
    have hcount : Bytes.readNat data countOffset 4 = .ok (r.size width) := count_of_parse h
    refine ⟨hfits, Bytes.lt_of_readNat hcount, tail, ?_⟩
    calc data = data.drop 0 := List.drop_zero.symm
      _ = Bytes.bigEndian 4 magicNumber.toNat ++ (Bytes.bigEndian 4 BlockKind.revoke.code.toNat ++
          (Bytes.bigEndian 4 r.sequence.toNat ++ (Bytes.bigEndian 4 (r.size width) ++
            data.drop revokeHeaderSize))) := by
        rw [Bytes.drop_of_readNat hmagic, Bytes.drop_of_readNat hkind, Bytes.drop_of_readNat htid]
        exact congrArg _ (congrArg _ (congrArg _ (Bytes.drop_of_readNat hcount)))
      _ = r.image width ++ tail := by
        simp only [htail, image, leadBytes, List.append_assoc]
  · rintro ⟨hfits, hsize, rest, hdata⟩
    have hfield : ∀ {offset value : Nat} {rest : Bytes}, offset ≤ 12 → value < UInt32.size →
        data.drop offset = Bytes.bigEndian 4 value ++ rest →
        Bytes.readNat data offset 4 = .ok value := by
      intro offset value rest hoffset hvalue hdrop
      exact Bytes.readNat_of_drop (Nat.lt_of_le_of_lt (Nat.add_le_add_right hoffset 4) (by decide))
        (by decide) hvalue hdrop
    have hlen : r.size width ≤ data.length := by
      rw [hdata, List.length_append, length_image]
      exact Nat.le_add_right _ _
    simp only [image, leadBytes, List.append_assoc] at hdata
    have hheader : Header.read data = .ok ⟨BlockKind.revoke.code, r.sequence⟩ :=
      Header.read_eq_ok_iff.mpr
        ⟨hfield (by decide) (UInt32.toNat_lt _) hdata,
          hfield (by decide) (UInt32.toNat_lt _) (congrArg (List.drop 4) hdata),
          hfield (by decide) (UInt32.toNat_lt _) (congrArg (List.drop 8) hdata)⟩
    exact parse_eq_ok hfits hheader (hfield (by decide) hsize (congrArg (List.drop 12) hdata)) hlen
      (congrArg (List.drop 16) hdata)

/-- What was read in a block is written back as it stood there. -/
theorem write_of_parse {data : Bytes} {width : RecordWidth} {r : RevokeBlock}
    (h : parse data width = .ok r) : r.write width data = (.ok (), data) := by
  rcases parse_eq_ok_iff_image.mp h with ⟨hfits, hsize, rest, hdata⟩
  have hrest : data.drop (r.size width) = rest := by
    rw [hdata, ← length_image r width, List.drop_left]
  have hroom : r.size width ≤ data.length := by
    rw [hdata, List.length_append, length_image]
    exact Nat.le_add_right _ _
  rw [write_eq hfits hsize hroom, hrest, ← hdata]

/-- What is written over a block is read in it. -/
theorem parse_of_write {data : Bytes} {width : RecordWidth} {r : RevokeBlock}
    (hfits : ∀ b ∈ r.blocks, width.fits b = true) (hsize : r.size width < UInt32.size)
    (hroom : r.size width ≤ data.length) :
    ∃ data', r.write width data = (.ok (), data') ∧ data'.length = data.length ∧
      data'.drop (r.size width) = data.drop (r.size width) ∧ parse data' width = .ok r := by
  refine ⟨_, write_eq hfits hsize hroom, ?_, ?_, parse_eq_ok_iff_image.mpr ⟨hfits, hsize, _, rfl⟩⟩
  · rw [List.length_append, length_image, List.length_drop]
    omega
  · rw [← length_image r width, List.drop_left]

end RevokeBlock

/-- The numbers in a block that is a revoke descriptor with so many bytes in use. -/
structure Layout (data : Bytes) (width : RecordWidth) (used : Nat) : Prop where
  /-- There is room for the header. -/
  header : 16 ≤ data.length
  /-- The magic number stands at the front. -/
  magic : Bytes.ofBigEndian (Bytes.slice data 0 4) = 0xC03B3998
  /-- The kind of block comes next. -/
  kind : Bytes.ofBigEndian (Bytes.slice data 4 4) = 5
  /-- The number of bytes in use ends the header. -/
  count : Bytes.ofBigEndian (Bytes.slice data 12 4) = used
  /-- The header is in use. -/
  least : 16 ≤ used
  /-- No more bytes are in use than there are. -/
  within : used ≤ data.length
  /-- The bytes behind the header are whole entries. -/
  whole : width.bytes ∣ used - 16

/-- A block is read as a revoke descriptor if and only if its numbers are those of one. No
    entry of such a block is missing. -/
theorem exists_parse_iff {data : Bytes} {width : RecordWidth} :
    (∃ r, RevokeBlock.parse data width = .ok r) ↔ ∃ used, Layout data width used := by
  constructor
  · rintro ⟨r, h⟩
    rcases RevokeBlock.parse_eq_ok_iff.mp h with
      ⟨used, hheader, hcount, hleast, hwithin, hwhole, _⟩
    rcases Header.read_eq_ok_iff.mp hheader with ⟨hmagic, hkind, _⟩
    exact ⟨used, Nat.le_trans hleast hwithin, (Bytes.readNat_eq_ok_iff.mp hmagic).2.2,
      (Bytes.readNat_eq_ok_iff.mp hkind).2.2, (Bytes.readNat_eq_ok_iff.mp hcount).2.2, hleast,
      hwithin, Nat.dvd_of_mod_eq_zero hwhole⟩
  · rintro ⟨used, hlayout⟩
    have hfield : ∀ offset, offset ≤ 12 → Bytes.readNat data offset 4 =
        .ok (Bytes.ofBigEndian (Bytes.slice data offset 4)) := fun offset hoffset =>
      Bytes.readNat_eq_ok (Nat.lt_of_le_of_lt (Nat.add_le_add_right hoffset 4) (by decide))
        (Nat.le_trans (Nat.add_le_add_right hoffset 4) hlayout.header)
    have htid := hfield 8 (by decide)
    have hsequence := UInt32.toNat_ofNat_of_lt' (Bytes.lt_of_readNat htid)
    have hheader : Header.read data = .ok ⟨BlockKind.revoke.code,
        Tid.ofNat (Bytes.ofBigEndian (Bytes.slice data 8 4))⟩ :=
      Header.read_eq_ok_iff.mpr ⟨(hfield 0 (by decide)).trans (congrArg _ hlayout.magic),
        (hfield 4 (by decide)).trans (congrArg _ hlayout.kind),
        htid.trans (congrArg _ hsequence.symm)⟩
    have hbytes : width.bytes * ((used - revokeHeaderSize) / width.bytes) ≤
        (data.drop revokeHeaderSize).length := by
      rw [List.length_drop]
      exact Nat.le_trans (Nat.mul_div_le _ _) (Nat.sub_le_sub_right hlayout.within _)
    rcases RevokeBlock.exists_readEntries hbytes revokeHeaderSize with ⟨blocks, hblocks⟩
    exact ⟨⟨_, blocks⟩, RevokeBlock.parse_eq_ok_iff.mpr ⟨used, hheader,
      (hfield 12 (by decide)).trans (congrArg _ hlayout.count), hlayout.least, hlayout.within,
      Nat.mod_eq_zero_of_dvd hlayout.whole, hblocks⟩⟩

-- The count says how many entries there are.
theorem Layout.length_blocks {data : Bytes} {width : RecordWidth} {used : Nat}
    (hlayout : Layout data width used) {r : RevokeBlock}
    (h : RevokeBlock.parse data width = .ok r) :
    r.blocks.length = (used - 16) / width.bytes := by
  rcases RevokeBlock.parse_eq_ok_iff.mp h with ⟨used', _, hcount, _, _, _, hentries⟩
  have hused := (Bytes.readNat_eq_ok_iff.mp hcount).2.2.symm.trans hlayout.count
  rw [RevokeBlock.length_readEntries hentries, hused]
  rfl

/-- Reading and writing revoke descriptors are inverse to each other. The blocks that are
    read are those with the numbers of a descriptor: all their entries are returned, a scan
    does not pass over them, and writing back what was read changes no byte. What was
    written over any block that is large enough is what is read in it, and the bytes
    behind it are kept. -/
theorem descriptor_codec (width : RecordWidth) (data : Bytes) :
    ((∃ r, RevokeBlock.parse data width = .ok r) ↔ ∃ used, Layout data width used) ∧
      (∀ r, RevokeBlock.parse data width = .ok r →
        (∀ used, Layout data width used → r.blocks.length = (used - 16) / width.bytes) ∧
          isRevokeBlock data = true ∧ r.write width data = (.ok (), data)) ∧
      ∀ r : RevokeBlock, (∀ b ∈ r.blocks, width.fits b = true) →
        16 + width.bytes * r.blocks.length ≤ data.length →
        16 + width.bytes * r.blocks.length < 2 ^ 32 →
        ∃ data', r.write width data = (.ok (), data') ∧ data'.length = data.length ∧
          data'.drop (16 + width.bytes * r.blocks.length) =
            data.drop (16 + width.bytes * r.blocks.length) ∧
          RevokeBlock.parse data' width = .ok r := by
  refine ⟨exists_parse_iff, ?_, ?_⟩
  · intro r h
    exact ⟨fun used hlayout => hlayout.length_blocks h, RevokeBlock.isRevokeBlock_of_parse h,
      RevokeBlock.write_of_parse h⟩
  · intro r hfits hroom hsize
    exact RevokeBlock.parse_of_write hfits hsize hroom

/-- Two blocks revoked by transaction 7, over a block that is not zeroed. -/
theorem descriptor_codec_overwrites :
    ∃ data', (RevokeBlock.mk ⟨7⟩ [⟨1⟩, ⟨0xFFFFFFFF⟩]).write .narrow (List.replicate 26 0xEE) =
        (.ok (), data') ∧ data'.length = 26 ∧
      data'.drop 24 = [0xEE, 0xEE] ∧
      RevokeBlock.parse data' .narrow = .ok ⟨⟨7⟩, [⟨1⟩, ⟨0xFFFFFFFF⟩]⟩ :=
  (descriptor_codec .narrow (List.replicate 26 0xEE)).2.2 ⟨⟨7⟩, [⟨1⟩, ⟨0xFFFFFFFF⟩]⟩ (by decide)
    (by decide) (by decide)

end BlockJournal
