import BlockJournal.Proofs.Device.Flat

/-!
# A Device over Time

What a device holds, told from what happened to it.

A device is used by reading and writing blocks and by telling it to refuse writes or to
stop doing so. Each use is answered, and the uses with their answers are the history of
the device. Everything about the device can be told from its history alone: a block holds
what was last put there by a write that went well, and zeros before that; a write counts
if it went well; and writes are refused if that was the last order.

`Device.Reflects` says that a device agrees with a history. `Reflects.on` is the step: a
use adds its event to the end of the history, so only what that event says can change.
`Reflects.run` is the run. `run?_flat` follows the flat view of the same device through
the same uses. It has the same history, and never leaves its string of bytes.

## Main definitions

* `DeviceUse`, `DeviceEvent`: What can be done with a device, and what came of it.
* `Device.run`, `FlatDevice.run?`: Several uses, with their history.
* `lastStored?`, `refusing`: What a history says.
* `Device.Reflects`: A device that agrees with a history.

## Theorems

* `Device.Reflects.on`, `Device.Reflects.run`: A device agrees with its history.
* `Device.run?_flat`: Both views have the same history.
* `Device.run_refines_map`: A device is a map from block numbers to blocks.
-/

namespace BlockJournal

/-- What can be done with a device. -/
inductive DeviceUse where
  /-- Read a block. -/
  | read (block : BlockNumber)
  /-- Write a block. -/
  | write (block : BlockNumber) (data : Bytes)
  /-- Make the device refuse writes, or stop doing so. -/
  | setFailing (failing : Bool)

/-- A use of a device with its answer. -/
inductive DeviceEvent where
  /-- A block was read. -/
  | read (block : BlockNumber) (answer : Except Error Bytes)
  /-- A block was written, or was not. -/
  | write (block : BlockNumber) (data : Bytes) (answer : Except Error Unit)
  /-- The device was told to refuse writes, or to stop doing so. -/
  | setFailing (failing : Bool)

namespace DeviceEvent

/-- What an event put into a block. -/
def stored? (block : BlockNumber) : DeviceEvent → Option Bytes
  | write other data (.ok _) => if other = block then some data else none
  | _ => none

/-- An event that is a write that went well. -/
def carriedOut : DeviceEvent → Bool
  | write _ _ (.ok _) => true
  | _ => false

/-- What an event orders about refusing writes. -/
def order? : DeviceEvent → Option Bool
  | setFailing failing => some failing
  | _ => none

end DeviceEvent

/-- What was last put into a block. -/
def lastStored? (history : List DeviceEvent) (block : BlockNumber) : Option Bytes :=
  history.reverse.findSome? (DeviceEvent.stored? block)

/-- Whether the last order was to refuse writes. -/
def refusing (history : List DeviceEvent) : Bool :=
  (history.reverse.findSome? DeviceEvent.order?).getD false

theorem lastStored?_concat (history : List DeviceEvent) (event : DeviceEvent)
    (block : BlockNumber) :
    lastStored? (history ++ [event]) block =
      (event.stored? block).or (lastStored? history block) := by
  rw [lastStored?, List.reverse_concat, List.findSome?_cons, lastStored?]
  cases event.stored? block with
  | none => rfl
  | some data => rfl

theorem refusing_concat (history : List DeviceEvent) (event : DeviceEvent) :
    refusing (history ++ [event]) = event.order?.getD (refusing history) := by
  rw [refusing, List.reverse_concat, List.findSome?_cons, refusing]
  cases event.order? with
  | none => rfl
  | some failing => rfl

/-- What comes of a use of a device. -/
def DeviceUse.on (d : Device) : DeviceUse → DeviceEvent × Device
  | read block => (.read block (d.read block), d)
  | write block data => (.write block data (d.write block data).1, (d.write block data).2)
  | setFailing failing => (.setFailing failing, d.setFailing failing)

/-- What comes of several uses of a device. -/
def Device.run (d : Device) : List DeviceUse → List DeviceEvent × Device
  | [] => ([], d)
  | use :: rest =>
      match use.on d with
      | (event, d') => (event :: (d'.run rest).1, (d'.run rest).2)

/-- What comes of a use of a device as one string, with nothing for an access outside. -/
def DeviceUse.onFlat? (d : FlatDevice) : DeviceUse → Option (DeviceEvent × FlatDevice)
  | read block => (d.read? block).map fun answer => (.read block answer, d)
  | write block data => (d.write? block data).map fun (answer, d') => (.write block data answer, d')
  | setFailing failing => some (.setFailing failing, d.setFailing failing)

/-- What comes of several uses of a device as one string, with nothing for an access outside. -/
def FlatDevice.run? (d : FlatDevice) : List DeviceUse → Option (List DeviceEvent × FlatDevice)
  | [] => some ([], d)
  | use :: rest =>
      match use.onFlat? d with
      | none => none
      | some (event, d') => (d'.run? rest).map fun (events, d'') => (event :: events, d'')

namespace Device

/-- A device that agrees with its history. -/
structure Reflects (d : Device) (blockSize blockCount : Nat) (history : List DeviceEvent) : Prop
    extends Formatted d where
  -- The sizes are those that the device was made with.
  blockSize_eq : d.blockSize = blockSize
  blockCount_eq : d.blockCount = blockCount
  -- A block holds what was last put there.
  stored_eq : ∀ block : BlockNumber, block.toNat < blockCount →
    d.blocks.getD block.toNat [] = (lastStored? history block).getD (Bytes.zeros blockSize)
  -- Every write that went well was counted.
  writes_eq : d.writes = UInt64.ofNat (history.countP DeviceEvent.carriedOut)
  -- The last order is followed.
  failing_eq : d.failing = refusing history

variable {d : Device} {blockSize blockCount : Nat} {history : List DeviceEvent}

theorem reflects_create (hc : create blockSize blockCount = .ok d) :
    d.Reflects blockSize blockCount [] := by
  rcases formatted_create hc with ⟨hformatted, rfl⟩
  refine ⟨hformatted, rfl, Array.size_replicate, fun block hb => ?_, rfl, rfl⟩
  rw [Array.getD_eq_getD_getElem?, Array.getElem?_replicate, if_pos hb]
  rfl

-- An event that stores nothing, counts for nothing and orders nothing.
theorem Reflects.idle (h : d.Reflects blockSize blockCount history) {event : DeviceEvent}
    (hstored : ∀ block, event.stored? block = none) (hcount : event.carriedOut = false)
    (horder : event.order? = none) : d.Reflects blockSize blockCount (history ++ [event]) := by
  refine ⟨h.toFormatted, h.blockSize_eq, h.blockCount_eq, fun block hb => ?_, ?_, ?_⟩
  · rw [lastStored?_concat, hstored, Option.none_or, h.stored_eq block hb]
  · rw [List.countP_append, List.countP_singleton, hcount, h.writes_eq]
    rfl
  · rw [refusing_concat, horder, Option.getD_none, h.failing_eq]

theorem Reflects.setFailing (h : d.Reflects blockSize blockCount history) (failing : Bool) :
    (d.setFailing failing).Reflects blockSize blockCount (history ++ [.setFailing failing]) := by
  refine ⟨h.toFormatted.setFailing failing, h.blockSize_eq, h.blockCount_eq, fun block hb => ?_,
    ?_, ?_⟩
  · rw [lastStored?_concat]
    exact h.stored_eq block hb
  · rw [List.countP_append]
    exact h.writes_eq
  · rw [refusing_concat]
    rfl

theorem Reflects.write (h : d.Reflects blockSize blockCount history) (block : BlockNumber)
    (data : Bytes) :
    (d.write block data).2.Reflects blockSize blockCount
      (history ++ [.write block data (d.write block data).1]) := by
  have hformatted := h.toFormatted.write block data
  rcases d.write_cases block data with ⟨⟨_, ⟨_, haddress⟩, _⟩, heq⟩ | ⟨_, e, heq⟩
  · rw [heq] at hformatted ⊢
    refine ⟨hformatted, h.blockSize_eq, ?_, fun other hother => ?_, ?_, ?_⟩
    · exact Array.size_setIfInBounds.trans h.blockCount_eq
    · rw [lastStored?_concat, Array.getD_eq_getD_getElem?]
      by_cases hsame : block = other
      · rw [← hsame, Array.getElem?_setIfInBounds_self_of_lt (lt_of_address haddress)]
        simp only [DeviceEvent.stored?, if_true, Option.some_or, Option.getD_some]
      · have hne : block.toNat ≠ other.toNat := fun hc => hsame (BlockNumber.toNat_inj hc)
        rw [Array.getElem?_setIfInBounds_ne hne, ← Array.getD_eq_getD_getElem?,
          h.stored_eq other hother]
        simp only [DeviceEvent.stored?, if_neg hsame, Option.none_or]
    · rw [List.countP_append, UInt64.ofNat_add, ← h.writes_eq]
      rfl
    · rw [refusing_concat]
      exact h.failing_eq
  · rw [heq]
    exact h.idle (fun _ => rfl) rfl rfl

/-- One use adds its event to the history of the device. -/
theorem Reflects.on (h : d.Reflects blockSize blockCount history) (use : DeviceUse) :
    (use.on d).2.Reflects blockSize blockCount (history ++ [(use.on d).1]) := by
  cases use with
  | read block => exact h.idle (fun _ => rfl) rfl rfl
  | write block data => exact h.write block data
  | setFailing failing => exact h.setFailing failing

/-- So a device agrees with its history after all of them. -/
theorem Reflects.run (h : d.Reflects blockSize blockCount history) (uses : List DeviceUse) :
    (d.run uses).2.Reflects blockSize blockCount (history ++ (d.run uses).1) := by
  induction uses generalizing d history with
  | nil =>
      rw [Device.run, List.append_nil]
      exact h
  | cons use rest ih =>
      have hrest := ih (h.on use)
      rw [List.append_assoc, List.singleton_append] at hrest
      exact hrest

theorem onFlat?_flat (h : d.Formatted) (use : DeviceUse) :
    use.onFlat? d.flat = some ((use.on d).1, (use.on d).2.flat) := by
  cases use with
  | read block => rw [DeviceUse.onFlat?, read?_flat h, Option.map_some, DeviceUse.on]
  | write block data => rw [DeviceUse.onFlat?, write?_flat h, Option.map_some, DeviceUse.on]
  | setFailing failing => rfl

/-- The flat view of a device has the same history, and never leaves its string. -/
theorem run?_flat (h : d.Reflects blockSize blockCount history) (uses : List DeviceUse) :
    d.flat.run? uses = some ((d.run uses).1, (d.run uses).2.flat) := by
  induction uses generalizing d history with
  | nil => rfl
  | cons use rest ih =>
      rw [FlatDevice.run?, onFlat?_flat h.toFormatted]
      simp only [ih (h.on use), Option.map_some, Device.run]

-- A block is read exactly if it is there.
theorem Reflects.read_eq (h : d.Reflects blockSize blockCount history) (block : BlockNumber) :
    d.read block =
      if block.toNat < blockCount then
        .ok ((lastStored? history block).getD (Bytes.zeros blockSize))
      else .error (.blockOutOfRange block blockCount) := by
  rw [read, address_eq h.toFits, h.blockCount_eq]
  by_cases hb : block.toNat < blockCount
  · simp only [if_pos hb, h.stored_eq block hb]
  · simp only [if_neg hb]

theorem Reflects.length_read (h : d.Reflects blockSize blockCount history) {block : BlockNumber}
    {data : Bytes} (hread : d.read block = .ok data) : data.length = blockSize := by
  have hb : block.toNat < d.blockCount := by
    by_contra hc
    rw [h.blockCount_eq] at hc
    rw [h.read_eq, if_neg hc] at hread
    exact absurd hread (by simp only [reduceCtorEq, not_false_eq_true])
  rw [read, address_eq h.toFits, if_pos hb, Array.getD_eq_getD_getElem?,
    Array.getElem?_eq_getElem hb] at hread
  rw [← Except.ok.inj hread, ← h.blockSize_eq]
  exact h.length_eq _ (Array.getElem_mem_toList hb)

-- What a write answers, and what it leaves.
theorem Reflects.write_spec (h : d.Reflects blockSize blockCount history) (block : BlockNumber)
    (data : Bytes) :
    ((d.write block data).1 = .ok () ↔
        data.length = blockSize ∧ block.toNat < blockCount ∧ refusing history = false) ∧
      ((d.write block data).1 ≠ .ok () → (d.write block data).2 = d) ∧
      ((d.write block data).1 = .ok () →
        (d.write block data).2.writes = d.writes + 1 ∧
          ∀ other, (d.write block data).2.read other =
            if other = block then .ok data else d.read other) := by
  have hcases := d.write_cases block data
  rw [h.toFits.exists_address_iff, h.blockSize_eq, h.blockCount_eq, h.failing_eq] at hcases
  rcases hcases with ⟨hdone, heq⟩ | ⟨hrefused, e, heq⟩
  · have hread : ∀ other, (d.write block data).2.read other =
        if other = block then .ok data else d.read other := by
      intro other
      by_cases hsame : other = block
      · rw [if_pos hsame, hsame, heq]
        exact (read_write heq).1
      · rw [if_neg hsame, read_write_of_ne d data hsame]
    rw [heq] at hread ⊢
    exact ⟨iff_of_true rfl hdone, fun hc => absurd rfl hc, fun _ => ⟨rfl, hread⟩⟩
  · have hne : (d.write block data).1 ≠ .ok () := by
      rw [heq]
      simp only [ne_eq, reduceCtorEq, not_false_eq_true]
    exact ⟨iff_of_false hne hrefused, fun _ => by rw [heq], fun hc => absurd hc hne⟩

/-- A device is a map from block numbers to blocks. After any uses, a block that is there reads
    as what was last written to it, or as zeros, and nothing else reads as anything. A write
    goes well if it brings a whole block for one that is there and writes are not refused; then
    it counts, and changes that block alone. Otherwise it changes nothing. No address is ever
    too large, and on the one string of bytes that the device is made of, the same uses have
    the same answers without ever leaving it. -/
theorem run_refines_map {d₀ : Device} (hc : create blockSize blockCount = .ok d₀)
    (uses : List DeviceUse) :
    let history := (d₀.run uses).1
    let d := (d₀.run uses).2
    (∀ block : BlockNumber, d.read block =
        if block.toNat < blockCount then
          .ok ((lastStored? history block).getD (Bytes.zeros blockSize))
        else .error (.blockOutOfRange block blockCount)) ∧
      (∀ block data, d.read block = .ok data → data.length = blockSize) ∧
      (∀ (block : BlockNumber) (data : Bytes),
        let (answer, d') := d.write block data
        (answer = .ok () ↔
            data.length = blockSize ∧ block.toNat < blockCount ∧ refusing history = false) ∧
          (answer ≠ .ok () → d' = d) ∧
          (answer = .ok () → d'.writes = d.writes + 1 ∧
            ∀ other, d'.read other = if other = block then .ok data else d.read other)) ∧
      d.writes = UInt64.ofNat (history.countP DeviceEvent.carriedOut) ∧
      (∀ block, d.address block ≠ .error .blockOffsetOverflow) ∧
      ∃ flat₀, FlatDevice.create blockSize blockCount = .ok flat₀ ∧
        flat₀.run? uses = some (history, d.flat) := by
  have hstart := reflects_create hc
  have hend := hstart.run uses
  rw [List.nil_append] at hend
  exact ⟨hend.read_eq, fun _ _ => hend.length_read, hend.write_spec, hend.writes_eq,
    hend.toFits.address_ne_overflow, d₀.flat, create_flat hc, run?_flat hstart uses⟩

/-- One of three blocks is written, a write behind the last one fails, and so does one that is
    refused. The block reads as it was written, the last one as zeros, and there is nothing at
    the end of all block numbers. -/
theorem run_refines_map_threeBlocks :
    let run := (⟨2, #[[0, 0], [0, 0], [0, 0]], 0, false⟩ : Device).run
      [.write ⟨1⟩ [7, 8], .write ⟨3⟩ [5, 6], .setFailing true, .write ⟨1⟩ [5, 6]]
    create 2 3 = .ok ⟨2, #[[0, 0], [0, 0], [0, 0]], 0, false⟩ ∧
      run.2.read ⟨1⟩ = .ok [7, 8] ∧ run.2.read ⟨2⟩ = .ok [0, 0] ∧
      run.2.read ⟨18446744073709551615⟩ =
        .error (.blockOutOfRange ⟨18446744073709551615⟩ 3) ∧
      (run.2.write ⟨0⟩ [5, 6]).2 = run.2 ∧ run.2.writes = 1 ∧
      ∃ flat₀, FlatDevice.create 2 3 = .ok flat₀ ∧
        flat₀.run? [.write ⟨1⟩ [7, 8], .write ⟨3⟩ [5, 6], .setFailing true, .write ⟨1⟩ [5, 6]] =
          some (run.1, run.2.flat) := by
  intro run
  have hc : create 2 3 = .ok ⟨2, #[[0, 0], [0, 0], [0, 0]], 0, false⟩ := by decide +kernel
  rcases run_refines_map hc [.write ⟨1⟩ [7, 8], .write ⟨3⟩ [5, 6], .setFailing true,
    .write ⟨1⟩ [5, 6]] with ⟨hread, _, hwrite, hwrites, _, hflat⟩
  rcases hwrite ⟨0⟩ [5, 6] with ⟨hok, hunchanged, _⟩
  refine ⟨hc, hread ⟨1⟩, hread ⟨2⟩, hread ⟨18446744073709551615⟩, hunchanged fun hdone => ?_,
    hwrites, hflat⟩
  have hrefusing := (hok.mp hdone).2.2
  exact absurd hrefusing (by decide)

end Device

end BlockJournal
