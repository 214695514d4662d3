import BlockJournal.Bytes
import Mathlib.Algebra.Group.Nat.Defs

/-!
# Laws of Bytes

What reading and writing inside a string of bytes has to do with each other.

Numbers come first. `ofBigEndian_bigEndian` and `bigEndian_ofBigEndian` say
that a number survives being written, as far as it fits, and that bytes
survive being read. Then the ranges: a splice is read back where it was
written, leaves every range apart from it alone, and changes nothing if it
puts back what was there.

## Theorems

* `ofBigEndian_bigEndian`: A number written is read back.
* `bigEndian_ofBigEndian`: Bytes read are written back.
* `ofBigEndian_lt`: How large a number in so many bytes can be.
* `length_slice`, `length_splice`: Lengths of ranges and of what they are in.
* `slice_splice_self`: A range written is read back.
* `slice_splice_of_disjoint`: A write does not change a range apart from it.
* `splice_slice`: Writing back what was read changes nothing.
-/

namespace BlockJournal

namespace Bytes

@[simp] theorem length_zeros (n : Nat) : (zeros n).length = n := List.length_replicate

@[simp] theorem length_bigEndian (width value : Nat) : (bigEndian width value).length = width := by
  induction width with
  | zero => rfl
  | succ w ih => simp only [bigEndian, List.length_cons, ih]

theorem bigEndian_succ (width value : Nat) :
    bigEndian (width + 1) value = UInt8.ofNat (value / 256 ^ width) :: bigEndian width value := rfl

/-- Bytes in front of others count as many times over as the others have values. -/
theorem ofBigEndian_append (a b : Bytes) :
    ofBigEndian (a ++ b) = ofBigEndian a * 256 ^ b.length + ofBigEndian b := by
  have shift : ∀ (data : Bytes) (n : Nat),
      data.foldl (fun n b => n * 256 + b.toNat) n =
        n * 256 ^ data.length + data.foldl (fun n b => n * 256 + b.toNat) 0 := by
    intro data
    induction data with
    | nil => intro n; simp only [List.foldl_nil, List.length_nil, Nat.pow_zero]; omega
    | cons x rest ih =>
        intro n
        simp only [List.foldl_cons, List.length_cons]
        rw [ih (n * 256 + x.toNat), ih (0 * 256 + x.toNat), Nat.pow_succ]
        rw [Nat.add_mul, Nat.mul_assoc, Nat.mul_comm 256, Nat.zero_mul, Nat.zero_add]
        omega
  simp only [ofBigEndian, List.foldl_append]
  exact shift b _

theorem ofBigEndian_lt (data : Bytes) : ofBigEndian data < 256 ^ data.length := by
  induction data with
  | nil => decide
  | cons x rest ih =>
      have h := ofBigEndian_append [x] rest
      have hx : ofBigEndian [x] < 256 := by simpa [ofBigEndian] using x.toNat_lt
      rw [List.singleton_append] at h
      rw [h, List.length_cons, Nat.pow_succ, Nat.mul_comm _ 256]
      calc ofBigEndian [x] * 256 ^ rest.length + ofBigEndian rest
          < ofBigEndian [x] * 256 ^ rest.length + 256 ^ rest.length := by omega
        _ = (ofBigEndian [x] + 1) * 256 ^ rest.length := by rw [Nat.add_mul, Nat.one_mul]
        _ ≤ 256 * 256 ^ rest.length := Nat.mul_le_mul_right _ hx

/-- Bytes written as a number read back as what fits into them. -/
theorem ofBigEndian_bigEndian (width value : Nat) :
    ofBigEndian (bigEndian width value) = value % 256 ^ width := by
  induction width with
  | zero => simp only [bigEndian, ofBigEndian, List.foldl_nil, Nat.pow_zero, Nat.mod_one]
  | succ w ih =>
      have h := ofBigEndian_append [UInt8.ofNat (value / 256 ^ w)] (bigEndian w value)
      rw [List.singleton_append] at h
      have hx : ofBigEndian [UInt8.ofNat (value / 256 ^ w)] = value / 256 ^ w % 256 := by
        simp [ofBigEndian]
      rw [bigEndian_succ, h, hx, ih, length_bigEndian, Nat.pow_succ, Nat.mod_mul, Nat.mul_comm]
      omega

/-- A number read from bytes is written as these bytes again. -/
theorem bigEndian_ofBigEndian (data : Bytes) : bigEndian data.length (ofBigEndian data) = data := by
  have low : ∀ (width a b : Nat), bigEndian width (a * 256 ^ width + b) = bigEndian width b := by
    intro width
    induction width with
    | zero => intros; rfl
    | succ w ih =>
        intro a b
        have hp : 0 < 256 ^ w := Nat.pow_pos (by decide)
        have e : a * 256 ^ (w + 1) + b = (a * 256) * 256 ^ w + b := by
          rw [Nat.pow_succ, Nat.mul_assoc, Nat.mul_comm 256]
        rw [bigEndian_succ, bigEndian_succ, e, ih]
        congr 1
        rw [Nat.add_comm, Nat.add_mul_div_right _ _ hp]
        apply UInt8.toNat_inj.1
        simp only [UInt8.toNat_ofNat']
        omega
  induction data with
  | nil => rfl
  | cons x rest ih =>
      have h := ofBigEndian_append [x] rest
      rw [List.singleton_append] at h
      have hx : ofBigEndian [x] = x.toNat := by simp [ofBigEndian]
      have hp : 0 < 256 ^ rest.length := Nat.pow_pos (by decide)
      rw [List.length_cons, bigEndian_succ, h, hx, low, ih, Nat.add_comm, Nat.add_mul_div_right _ _ hp,
        Nat.div_eq_of_lt (ofBigEndian_lt rest), Nat.zero_add]
      simp

theorem length_slice {data : Bytes} {offset len : Nat} (h : offset + len ≤ data.length) :
    (slice data offset len).length = len := by
  simp only [slice, List.length_take, List.length_drop]
  omega

theorem length_splice {data new : Bytes} {offset : Nat} (h : offset + new.length ≤ data.length) :
    (splice data offset new).length = data.length := by
  simp only [splice, List.length_append, List.length_take, List.length_drop]
  omega

theorem getElem?_splice {data new : Bytes} {offset : Nat} (h : offset + new.length ≤ data.length)
    (i : Nat) :
    (splice data offset new)[i]? =
      if offset ≤ i ∧ i < offset + new.length then new[i - offset]? else data[i]? := by
  simp only [splice, List.append_assoc, List.getElem?_append, List.length_take,
    List.getElem?_take, List.getElem?_drop]
  grind

theorem getElem?_slice (data : Bytes) (offset len i : Nat) :
    (slice data offset len)[i]? = if i < len then data[offset + i]? else none := by
  simp only [slice, List.getElem?_take, List.getElem?_drop]

/-- What was written is read back. -/
theorem slice_splice_self {data new : Bytes} {offset : Nat}
    (h : offset + new.length ≤ data.length) :
    slice (splice data offset new) offset new.length = new := by
  apply List.ext_getElem?
  intro i
  rw [getElem?_slice, getElem?_splice h]
  grind

/-- A write outside a range does not change it. -/
theorem slice_splice_of_disjoint {data new : Bytes} {offset start len : Nat}
    (h : offset + new.length ≤ data.length)
    (apart : start + len ≤ offset ∨ offset + new.length ≤ start) :
    slice (splice data offset new) start len = slice data start len := by
  apply List.ext_getElem?
  intro i
  rw [getElem?_slice, getElem?_slice, getElem?_splice h]
  grind

/-- Writing back what was read changes nothing. -/
theorem splice_slice {data : Bytes} {offset len : Nat} (h : offset + len ≤ data.length) :
    splice data offset (slice data offset len) = data := by
  apply List.ext_getElem?
  intro i
  rw [getElem?_splice (by rw [length_slice h]; exact h), length_slice h, getElem?_slice]
  grind

end Bytes

end BlockJournal
