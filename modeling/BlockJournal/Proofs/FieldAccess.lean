import BlockJournal.Proofs.DescriptorCodec

/-!
# Access to Fields

Which fields can be read and written, and what a write changes.

There is one condition for both: the end of the field is an address, and the bytes are
there. A field that meets it takes its number and gives it back, and everything outside
of its bytes stays as it was. A field that does not is refused before anything is touched.

A string of bytes that is cut where it has no bytes gives what it has, so a forgotten
check of a range would go unnoticed here. `cut?` and `patch?` notice it: they are about
ranges of the string and nothing else. `readGuarded` and `writeGuarded` go through them
and look up the bytes of a field one at a time, and they do just what `readNat` and
`writeNat` do, so no access ever leaves the string.

## Main definitions

* `Bytes.cut?`, `Bytes.patch?`: Reading and replacing what must be a range of a string.
* `Bytes.readGuarded`, `Bytes.writeGuarded`: Access to a field that fails outside.

## Theorems

* `Bytes.readGuarded_eq`, `Bytes.writeGuarded_eq`: No access leaves the string.
* `Bytes.writeNat_eq_ok_iff`: Which fields can be written.
* `Bytes.getElem?_of_writeNat`, `Bytes.readNat_of_writeNat`: What a write changes.
* `Bytes.writeNat_of_readNat`: Writing back what was read.
* `Bytes.field_access`: All of it.
-/

namespace BlockJournal

namespace Bytes

/-- The bytes from one address to another, if that is a range of the string. -/
def cut? (data : Bytes) (first last : Nat) : Option Bytes :=
  if first ≤ last ∧ last ≤ data.length then some ((data.take last).drop first) else none

/-- The string with the bytes from one address to another replaced, if that is a range of the
    string and as many bytes are put there. -/
def patch? (data : Bytes) (first last : Nat) (new : Bytes) : Option Bytes :=
  if first ≤ last ∧ last ≤ data.length ∧ new.length = last - first then
    some (data.take first ++ new ++ data.drop last)
  else none

theorem cut?_eq_some {data : Bytes} {offset len : Nat} (h : offset + len ≤ data.length) :
    data.cut? offset (offset + len) = some (slice data offset len) := by
  rw [cut?, if_pos ⟨Nat.le_add_right _ _, h⟩, List.drop_take, Nat.add_sub_cancel_left, slice]

theorem patch?_eq_some {data new : Bytes} {offset len : Nat} (h : offset + len ≤ data.length)
    (hnew : new.length = len) :
    data.patch? offset (offset + len) new = some (splice data offset new) := by
  have hlen : new.length = offset + len - offset := by omega
  rw [patch?, if_pos ⟨Nat.le_add_right _ _, h, hlen⟩, splice, hnew]

/-- The number stored in a field, with nothing for an access outside of the string. -/
def readGuarded (data : Bytes) (offset width : Nat) : Option (Except FieldError Nat) :=
  match bounds data.length offset width with
  | .error e => some (.error e)
  | .ok () =>
      match data.cut? offset (offset + width) with
      | none => none
      | some field =>
          -- The number is put together from the bytes of the field one at a time.
          match (List.range width).mapM (field[·]?) with
          | none => none
          | some digits => some (.ok (ofBigEndian digits))

/-- Store a number in a field, with nothing for an access outside of the string. -/
def writeGuarded (data : Bytes) (offset width value : Nat) :
    Option (Except FieldError Unit × Bytes) :=
  match bounds data.length offset width with
  | .error e => some (.error e, data)
  | .ok () =>
      match data.patch? offset (offset + width) (bigEndian width value) with
      | none => none
      | some data => some (.ok (), data)

-- All bytes of a string can be looked up.
theorem mapM_getElem?_range (data : Bytes) :
    (List.range data.length).mapM (data[·]?) = some data := by
  induction data with
  | nil => rfl
  | cons b rest ih =>
      have htail : ((b :: rest)[·]?) ∘ Nat.succ = (rest[·]?) := rfl
      rw [List.length_cons, List.range_succ_eq_map, List.mapM_cons, List.mapM_map, htail, ih]
      rfl

/-- Reading a field never looks outside of the string. -/
theorem readGuarded_eq (data : Bytes) (offset width : Nat) :
    data.readGuarded offset width = some (readNat data offset width) := by
  unfold readGuarded readNat range
  cases hbounds : bounds data.length offset width with
  | error e => rfl
  | ok =>
      have havail := (bounds_eq_ok_iff.mp hbounds).2
      have hlookup := mapM_getElem?_range (slice data offset width)
      rw [length_slice havail] at hlookup
      simp only [cut?_eq_some havail, hlookup]

/-- Storing a number never touches anything outside of the string. -/
theorem writeGuarded_eq (data : Bytes) (offset width value : Nat) :
    data.writeGuarded offset width value = some (writeNat data offset width value) := by
  unfold writeGuarded writeNat
  cases hbounds : bounds data.length offset width with
  | error e => rfl
  | ok =>
      have havail := (bounds_eq_ok_iff.mp hbounds).2
      simp only [patch?_eq_some havail (length_bigEndian width value)]

/-- A field can be written if its end is an address and its bytes are there. -/
theorem writeNat_eq_ok_iff {data : Bytes} {offset width value : Nat} :
    (writeNat data offset width value).1 = .ok () ↔
      offset + width < addressSpace ∧ offset + width ≤ data.length := by
  rw [← bounds_eq_ok_iff, writeNat]
  cases bounds data.length offset width with
  | error e => simp only [reduceCtorEq]
  | ok => simp only

/-- It can be read under the same condition. -/
theorem exists_readNat_iff {data : Bytes} {offset width : Nat} :
    (∃ value, readNat data offset width = .ok value) ↔
      offset + width < addressSpace ∧ offset + width ≤ data.length := by
  simp only [readNat_eq_ok_iff, exists_and_left, exists_eq', and_true]

theorem writeNat_of_error {data : Bytes} {offset width value : Nat} {e : FieldError}
    (h : (writeNat data offset width value).1 = .error e) :
    (writeNat data offset width value).2 = data := by
  unfold writeNat at h ⊢
  cases hbounds : bounds data.length offset width with
  | error e => rfl
  | ok => simp only [hbounds, reduceCtorEq] at h

section Written

variable {data data' : Bytes} {offset width value : Nat}

theorem length_of_writeNat (h : writeNat data offset width value = (.ok (), data')) :
    data'.length = data.length := by
  rcases writeNat_eq_ok h with ⟨_, havail, rfl⟩
  exact length_splice (by rw [length_bigEndian]; exact havail)

-- Every byte outside of the field is the one that was there.
theorem getElem?_of_writeNat (h : writeNat data offset width value = (.ok (), data')) {i : Nat}
    (hi : i < offset ∨ offset + width ≤ i) : data'[i]? = data[i]? := by
  rcases writeNat_eq_ok h with ⟨_, havail, rfl⟩
  rw [getElem?_splice (by rw [length_bigEndian]; exact havail), length_bigEndian,
    if_neg (by omega)]

/-- A number that fits the field is read back. -/
theorem readNat_of_writeNat (h : writeNat data offset width value = (.ok (), data'))
    (hvalue : value < 256 ^ width) : readNat data' offset width = .ok value := by
  rcases writeNat_eq_ok h with ⟨hspace, havail, rfl⟩
  exact readNat_splice hspace havail hvalue

-- A field apart from the one that was written has the number it had, or is refused as it was.
theorem readNat_of_writeNat_of_apart (h : writeNat data offset width value = (.ok (), data'))
    {start len : Nat} (hapart : start + len ≤ offset ∨ offset + width ≤ start) :
    readNat data' start len = readNat data start len := by
  rcases writeNat_eq_ok h with ⟨_, havail, rfl⟩
  refine readNat_splice_of_disjoint ?_ ?_
  · rw [length_bigEndian]
    exact havail
  · rw [length_bigEndian]
    exact hapart

/-- Writing back the number that was read changes nothing. -/
theorem writeNat_of_readNat (h : readNat data offset width = .ok value) :
    writeNat data offset width value = (.ok (), data) := by
  rcases readNat_eq_ok_iff.mp h with ⟨hspace, havail, rfl⟩
  have hfield := bigEndian_ofBigEndian (slice data offset width)
  rw [length_slice havail] at hfield
  rw [writeNat, bounds_eq_ok_iff.mpr ⟨hspace, havail⟩, hfield, splice_slice havail]

end Written

/-- What reading and writing the field at an offset does, for every string of bytes, every
    offset and every number that fits the field.

    Both succeed on the same fields. A write that fails changes nothing, and one that succeeds
    changes the bytes of the field to what is read as the number, and no others. Writing back
    what was read changes nothing, and no access leaves the string. -/
theorem field_access (data : Bytes) (offset width value : Nat) (hvalue : value < 256 ^ width) :
    ((writeNat data offset width value).1 = .ok () ↔
      offset + width < addressSpace ∧ offset + width ≤ data.length) ∧
    ((∃ found, readNat data offset width = .ok found) ↔
      offset + width < addressSpace ∧ offset + width ≤ data.length) ∧
    (∀ e, (writeNat data offset width value).1 = .error e →
      (writeNat data offset width value).2 = data) ∧
    (∀ data', writeNat data offset width value = (.ok (), data') →
      data'.length = data.length ∧ readNat data' offset width = .ok value ∧
      (∀ i, i < offset ∨ offset + width ≤ i → data'[i]? = data[i]?) ∧
      ∀ start len, start + len ≤ offset ∨ offset + width ≤ start →
        readNat data' start len = readNat data start len) ∧
    (∀ found, readNat data offset width = .ok found →
      writeNat data offset width found = (.ok (), data)) ∧
    data.readGuarded offset width = some (readNat data offset width) ∧
    data.writeGuarded offset width value = some (writeNat data offset width value) := by
  refine ⟨writeNat_eq_ok_iff, exists_readNat_iff, fun e he => writeNat_of_error he,
    fun data' h => ?_, fun found hfound => writeNat_of_readNat hfound,
    readGuarded_eq data offset width, writeGuarded_eq data offset width value⟩
  exact ⟨length_of_writeNat h, readNat_of_writeNat h hvalue, fun i hi => getElem?_of_writeNat h hi,
    fun start len hapart => readNat_of_writeNat_of_apart h hapart⟩

/-- The magic number fits into four of six bytes and is read back from there, and the bytes in
    front of it stay. At the end of the address space there is no room for it. -/
theorem field_access_magic :
    writeNat [1, 2, 3, 4, 5, 6] 2 4 0xC03B3998 = (.ok (), [1, 2, 0xC0, 0x3B, 0x39, 0x98]) ∧
    readNat [1, 2, 0xC0, 0x3B, 0x39, 0x98] 2 4 = .ok 0xC03B3998 ∧
    readNat [1, 2, 0xC0, 0x3B, 0x39, 0x98] 0 2 = readNat [1, 2, 3, 4, 5, 6] 0 2 ∧
    (writeNat [1, 2, 3, 4, 5, 6] (addressSpace - 2) 4 0xC03B3998).1 ≠ .ok () := by
  have hfits : 0xC03B3998 < 256 ^ 4 := by decide
  have hwrite : writeNat [1, 2, 3, 4, 5, 6] 2 4 0xC03B3998 =
      (.ok (), [1, 2, 0xC0, 0x3B, 0x39, 0x98]) := by rfl
  rcases field_access [1, 2, 3, 4, 5, 6] 2 4 0xC03B3998 hfits with ⟨_, _, _, hwritten, _⟩
  rcases hwritten _ hwrite with ⟨_, hread, _, happart⟩
  refine ⟨hwrite, hread, happart 0 2 (Or.inl (by decide)), fun hok => ?_⟩
  have hroom := (field_access [1, 2, 3, 4, 5, 6] (addressSpace - 2) 4 0xC03B3998 hfits).1.mp hok
  exact absurd hroom.1 (by decide)

end Bytes

end BlockJournal
