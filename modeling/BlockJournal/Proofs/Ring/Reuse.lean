import BlockJournal.Proofs.Commit.Logging
import BlockJournal.Proofs.Ring.Ledger

/-!
# Reuse of Log Blocks

A circular log never writes over a block that was not released.

The head and the number of free blocks are changed independently of each other, and
freeing more blocks than there are to free is no mistake. The books of the log say what
that comes to: the blocks that are not free are the most recent ones handed out and the
ones that were not released, they are all different, and the next block is none of them.
A commit writes a descriptor to the newest of its blocks and to no other, so a write to
a block that was not released, by this commit or an earlier one, stays on the device.

`Ledger.Kept` is what every operation keeps. A commit keeps it step by step, and what it
is handed on the way is followed by `Ledger.Grown`.

## Main definitions

* `Ledger.Kept`: Books that are right.
* `Ledger.Grown`: What can come of a log while nothing is released.
* `Draft.Booked`: A commit under way that keeps the books right.
* `Ledger.Next`: What can come of a log in one operation.
* `Ledger.Safe`: What holds of a log after every run.

## Theorems

* `Kept.handOut`, `Kept.submit`, `Kept.release`: What the log does, one call at a time.
* `Step.booked`, `Booked.strike`, `commitAmid_booked`: Commits, step by step and strike by
  strike.
* `bookOp_next`: Every operation keeps the books right.
* `runOps_safe`: No block is written over that was not released.
-/

namespace BlockJournal

namespace Ledger

/-- Books that are right. -/
structure Kept (l : Ledger) : Prop where
  -- The blocks were handed out and released as booked.
  cycled : l.log.Cycled l.handed l.released
  -- A write goes to the block that was handed out last.
  written_to : ∀ w ∈ l.written, l.handed[w.time]? = some w.block
  -- What was written is there until its block is released.
  intact : ∀ w ∈ l.written, l.released ≤ w.time → l.log.device.read w.block = .ok w.data

/-- What can come of a log that nobody releases blocks of: the blocks `new` are handed
    out, and no others are written to. -/
structure Grown (l l' : Ledger) (new : List BlockNumber) : Prop where
  -- The area is the same.
  first_eq : l'.log.first = l.log.first
  last_eq : l'.log.last = l.log.last
  -- Some blocks were handed out.
  handed_eq : l'.handed = l.handed ++ new
  -- None was released.
  released_eq : l'.released = l.released
  -- The others hold what they held.
  read_eq : ∀ b, b ∉ new → l'.log.device.read b = l.log.device.read b

variable {l l' l'' : Ledger} {new new' : List BlockNumber}

theorem Grown.refl (l : Ledger) : l.Grown l [] :=
  ⟨rfl, rfl, (List.append_nil _).symm, rfl, fun _ _ => rfl⟩

theorem Grown.trans (h : l.Grown l' new) (h' : l'.Grown l'' new') :
    l.Grown l'' (new ++ new') := by
  refine ⟨h'.first_eq.trans h.first_eq, h'.last_eq.trans h.last_eq, ?_,
    h'.released_eq.trans h.released_eq, fun b hb => ?_⟩
  · rw [h'.handed_eq, h.handed_eq, List.append_assoc]
  · rw [List.mem_append, not_or] at hb
    rw [h'.read_eq b hb.2, h.read_eq b hb.1]

-- The blocks that are taken are the ones that were not released.
theorem Kept.taken_eq (h : l.Kept) : l.taken = l.handed.drop l.released :=
  taken_of_cycled h.cycled

-- Nothing happens to the books if nothing happens to the device and to the head.
theorem Kept.setLog (h : l.Kept) (log : RingLog) (hfits : log.device.Fits)
    (hcount : log.device.blockCount = l.log.device.blockCount)
    (hfirst : log.first = l.log.first) (hlast : log.last = l.log.last)
    (hhead : log.head = l.log.head) (hfree : log.free = l.log.free)
    (hread : ∀ b, log.device.read b = l.log.device.read b) :
    (l.setLog log).Kept ∧ l.Grown (l.setLog log) [] := by
  refine ⟨⟨h.cycled.congr hfits hcount hfirst hlast hhead hfree, h.written_to, ?_⟩,
    ⟨hfirst, hlast, (List.append_nil _).symm, rfl, fun b _ => hread b⟩⟩
  intro w hw htime
  exact (hread w.block).trans (h.intact w hw htime)

-- Filing a descriptor and taking a buffer off a list are not booked.
theorem Kept.file (h : l.Kept) (tid : Tid) (id : BufferId) (b : Buffer) :
    (LogService.file l tid id b).next.Kept ∧ l.Grown (LogService.file l tid id b).next [] :=
  h.setLog _ h.cycled.fits rfl rfl rfl rfl rfl fun _ => rfl

theorem Kept.forget (h : l.Kept) (tid : Tid) (b : Buffer) :
    (LogService.forget l tid b).next.Kept ∧ l.Grown (LogService.forget l tid b).next [] :=
  h.setLog _ h.cycled.fits rfl rfl rfl rfl rfl fun _ => rfl

-- Neither is what the device is told.
theorem Kept.setFailing (h : l.Kept) (failing : Bool) :
    (DeviceLog.setFailing l failing).Kept ∧ l.Grown (DeviceLog.setFailing l failing) [] :=
  h.setLog _ ⟨h.cycled.fits.pos, h.cycled.fits.lt⟩ rfl rfl rfl rfl rfl fun _ => rfl

-- A block is written to after it was handed out.
theorem Kept.time_lt (h : l.Kept) {w : Written} (hw : w ∈ l.written) :
    w.time < l.handed.length :=
  (List.getElem?_eq_some_iff.mp (h.written_to w hw)).1

/-- A block that is handed out is not one of those that are taken. -/
theorem Kept.head_not_mem (h : l.Kept) (hfree : 0 < l.log.free) :
    BlockNumber.ofNat l.log.head ∉ l.taken := by
  rw [h.taken_eq]
  exact h.cycled.head_not_mem hfree

/-- The log after it handed out a block. -/
def handOut (l : Ledger) : Ledger :=
  (l.hand (some (BlockNumber.ofNat l.log.head))).setLog l.log.advance

-- Handing out a block.
theorem Kept.handOut (h : l.Kept) (hfree : 0 < l.log.free) :
    l.handOut.Kept ∧ l.Grown l.handOut [BlockNumber.ofNat l.log.head] := by
  refine ⟨⟨h.cycled.advance hfree, fun w hw => ?_, h.intact⟩,
    ⟨rfl, rfl, rfl, rfl, fun _ _ => rfl⟩⟩
  exact (List.getElem?_append_left (h.time_lt hw)).trans (h.written_to w hw)

-- What becomes of the books when the log is asked for a block.
theorem next_request_full (l : Ledger) (hfree : l.log.free = 0) :
    (LogService.request l).next = l := by
  have hrequest : LogService.request l.log = ⟨none, l.log, false, [.logFull]⟩ := if_pos hfree
  change (l.hand ((LogService.request l.log).value.map Prod.fst)).setLog
    (LogService.request l.log).next = l
  rw [hrequest]
  simp only [hand, setLog, Option.map_none, Option.toList_none, List.append_nil]

theorem next_request (l : Ledger) (hfree : 0 < l.log.free) :
    (LogService.request l).next = l.handOut := by
  have hrequest : LogService.request l.log =
      ⟨some (BlockNumber.ofNat l.log.head, l.log.device.blockSize), l.log.advance, false, []⟩ :=
    if_neg (Nat.ne_of_gt hfree)
  change (l.hand ((LogService.request l.log).value.map Prod.fst)).setLog
    (LogService.request l.log).next = l.handOut
  rw [hrequest]
  rfl

-- What a submitted buffer adds to the books.
theorem write_cases (l : Ledger) (b : Buffer) :
    (∃ device, l.log.device.write b.block b.data = (.ok (), device) ∧
      l.write b = { l with written := l.written ++ [⟨l.handed.length - 1, b.block, b.data⟩] }) ∨
    l.write b = l := by
  unfold write
  rcases l.log.device.write b.block b.data with ⟨e | ⟨⟩, device⟩
  · exact Or.inr rfl
  · exact Or.inl ⟨device, rfl, rfl⟩

theorem handed_write (l : Ledger) (b : Buffer) : (l.write b).handed = l.handed := by
  rcases l.write_cases b with ⟨_, _, heq⟩ | heq
  · rw [heq]
  · rw [heq]

theorem released_write (l : Ledger) (b : Buffer) : (l.write b).released = l.released := by
  rcases l.write_cases b with ⟨_, _, heq⟩ | heq
  · rw [heq]
  · rw [heq]

/-- Writing to the block that was handed out last, which was not written to before. -/
theorem Kept.submit (h : l.Kept) (id : BufferId) {b : Buffer}
    (hlast : l.handed.getLast? = some b.block)
    (hbefore : ∀ w ∈ l.written, w.time + 1 < l.handed.length)
    (hl' : (LogService.submit l id b).next = l') : l'.Kept := by
  rcases l.log.next_submit id b rfl with ⟨_, _, _, _, _, hdevice, _, _⟩
  have hcycled := h.cycled.submit id b
  rw [List.getLast?_eq_getElem?] at hlast
  -- The blocks written to before are others, as long as they were not released.
  have hintact : ∀ w ∈ l.written, l.released ≤ w.time →
      (LogService.submit l.log id b).next.device.read w.block = .ok w.data := by
    intro w hw htime
    have hlt := hbefore w hw
    have hne := h.cycled.ne_of_lt htime (by omega) (h.written_to w hw) hlast
    rw [hdevice, Device.read_write_of_ne _ _ hne, h.intact w hw htime]
  rw [← hl']
  rcases l.write_cases b with ⟨device, hwrite, hwrites⟩ | hwrites
  · change ((l.write b).setLog _).Kept
    rw [hwrites]
    refine ⟨hcycled, fun w hw => ?_, fun w hw htime => ?_⟩
    · rcases List.mem_append.mp hw with hw | hw
      · exact h.written_to w hw
      · rw [List.mem_singleton.mp hw]
        exact hlast
    · rcases List.mem_append.mp hw with hw | hw
      · exact hintact w hw htime
      · rw [List.mem_singleton.mp hw]
        change (LogService.submit l.log id b).next.device.read b.block = .ok b.data
        rw [hdevice, hwrite]
        exact (Device.read_write hwrite).1
  · change ((l.write b).setLog _).Kept
    rw [hwrites]
    exact ⟨hcycled, h.written_to, hintact⟩

-- Writing to a block that was handed out since.
theorem Grown.submit (h : l.Grown l' new) (id : BufferId) {b : Buffer} (hb : b.block ∈ new)
    (hl'' : (LogService.submit l' id b).next = l'') : l.Grown l'' new := by
  rcases l'.log.next_submit id b rfl with ⟨_, hfirst, hlast, _, _, hdevice, _, _⟩
  rw [← hl'']
  refine ⟨hfirst.trans h.first_eq, hlast.trans h.last_eq, (handed_write l' b).trans h.handed_eq,
    (released_write l' b).trans h.released_eq, fun other hother => ?_⟩
  change (LogService.submit l'.log id b).next.device.read other = _
  rw [hdevice, Device.read_write_of_ne, h.read_eq other hother]
  rintro rfl
  exact hother hb

end Ledger

namespace Mount

-- The log is full.
theorem request_ledger_none {m m' : Mount Ledger} (h : m.request = (none, m')) :
    m.log.log.free = 0 ∧ m'.log = m.log := by
  have hfree : m.log.log.free = 0 :=
    free_of_request_none (request_exchange_eq Ledger.alike.toAlike h)
  have hlog := log_request m
  rw [h] at hlog
  exact ⟨hfree, hlog.trans (m.log.next_request_full hfree)⟩

-- The log hands out its next block.
theorem request_ledger_some {m m' : Mount Ledger} {buffer : BufferId}
    (h : m.request = (some buffer, m')) :
    0 < m.log.log.free ∧ m'.log = m.log.handOut ∧
      (m'.store.get buffer).block = BlockNumber.ofNat m.log.log.head := by
  have hlog := log_request m
  rw [h] at hlog
  rcases Draft.request_eq_some (request_exchange_eq Ledger.alike.toAlike h) with
    ⟨hfree, _, _, _, hnew, _⟩
  exact ⟨hfree, hlog.trans (m.log.next_request hfree), congrArg Buffer.block hnew⟩

end Mount

namespace Draft

open Ledger

/-- A commit under way, which began with the books `start` and was handed the blocks
    `new`. -/
structure Booked (start : Ledger) (new : List BlockNumber) (d : Draft Ledger) : Prop where
  -- The books are right.
  kept : d.mount.log.Kept
  -- Only blocks of the commit were written to.
  grown : start.Grown d.mount.log new
  -- The descriptor being filled has the newest block, which was not written to.
  filling : ∀ desc, d.current = some desc →
    new.getLast? = some (d.mount.store.get desc.buffer).block ∧
      ∀ w ∈ d.mount.log.written, w.time + 1 < d.mount.log.handed.length

variable {start : Ledger} {new : List BlockNumber} {tid : Tid} {width : RecordWidth}
  {d d' : Draft Ledger} {rs : List Record}

-- A step that asks the log for nothing: the descriptor being filled has the same block or
-- is given up.
theorem Booked.quiet (hd : d.Booked start new) (hlog : d'.mount.log = d.mount.log)
    (hcurrent : ∀ desc', d'.current = some desc' → ∃ desc, d.current = some desc ∧
      (d'.mount.store.get desc'.buffer).block = (d.mount.store.get desc.buffer).block) :
    d'.Booked start new := by
  refine ⟨hlog ▸ hd.kept, hlog ▸ hd.grown, fun desc' hdesc => ?_⟩
  rcases hcurrent desc' hdesc with ⟨desc, hcur, hblock⟩
  rw [hlog, hblock]
  exact hd.filling desc hcur

-- A step after which no descriptor is being filled.
theorem booked_of_none (hkept : d.mount.log.Kept) (hgrown : start.Grown d.mount.log new)
    (hcur : d.current = none) : d.Booked start new := by
  refine ⟨hkept, hgrown, fun desc hdesc => ?_⟩
  rw [hcur] at hdesc
  exact absurd hdesc (by simp only [reduceCtorEq, not_false_eq_true])

-- A descriptor is asked for and filed: it has the newest block, which nobody has written to.
theorem Booked.opened (hd : d.Booked start new) {id : BufferId} {m m' : Mount Ledger}
    (hrequest : d.mount.request = (some id, m)) {data : Bytes}
    (hfile : (m.modifyBuffer id (·.setData data)).file tid id = m') (capacity room : Nat) :
    ({ d with mount := m', current := some ⟨id, capacity, room, width, 0, []⟩ } :
      Draft Ledger).Booked start (new ++ [BlockNumber.ofNat d.mount.log.log.head]) := by
  rcases Mount.request_ledger_some hrequest with ⟨hfree, hlog, hblock⟩
  rcases hd.kept.handOut hfree with ⟨hkept, hgrown⟩
  let filed := m.modifyBuffer id (·.setData data)
  have hlog' : m'.log = (LogService.file d.mount.log.handOut tid id (filed.store.get id)).next := by
    rw [← hfile, Mount.log_file, ← hlog]
    rfl
  have hstore : m'.store = m.store.modify id (·.setData data) := by
    rw [← hfile]
    rfl
  rcases hkept.file tid id (filed.store.get id) with ⟨hkept', hgrown'⟩
  have hall := (hd.grown.trans hgrown).trans hgrown'
  rw [List.append_nil] at hall
  refine ⟨hlog' ▸ hkept', hlog' ▸ hall, fun desc hdesc => ?_⟩
  rw [← Option.some.inj hdesc]
  refine ⟨?_, fun w hw => ?_⟩
  · change _ = some (m'.store.get id).block
    rw [hstore, (sent_setData m.store id id data).2, hblock, List.getLast?_concat]
  · change w ∈ m'.log.written at hw
    change w.time + 1 < m'.log.handed.length
    rw [hlog'] at hw ⊢
    change _ < (d.mount.log.handed ++ [_]).length
    rw [List.length_append]
    exact Nat.succ_lt_succ (hd.kept.time_lt hw)

-- The descriptor being filled is handed to the log.
theorem Booked.submit (hd : d.Booked start new) {desc : OpenDescriptor}
    (hcur : d.current = some desc) {m : Mount Ledger} (hlog : m.log = d.mount.log)
    (hblock : (m.store.get desc.buffer).block = (d.mount.store.get desc.buffer).block) :
    (m.submit desc.buffer).log.Kept ∧ start.Grown (m.submit desc.buffer).log new := by
  rcases hd.filling desc hcur with ⟨hlast, hbefore⟩
  have hsubmit := (Mount.log_submit m desc.buffer).symm
  rw [hlog] at hsubmit
  rw [← hblock] at hlast
  have hnewest : d.mount.log.handed.getLast? = some (m.store.get desc.buffer).block := by
    rw [hd.grown.handed_eq, List.getLast?_append, hlast, Option.some_or]
  exact ⟨hd.kept.submit desc.buffer hnewest hbefore hsubmit,
    hd.grown.submit desc.buffer (List.mem_of_getLast? hlast) hsubmit⟩

/-- Every step keeps the books right, and writes to no block but the newest one of the
    commit. -/
theorem Step.booked (h : Step tid width d rs d') (hd : d.Booked start new) :
    ∃ new', d'.Booked start new' := by
  cases h with
  | count => exact ⟨new, hd.quiet rfl fun desc hcur => ⟨desc, hcur, rfl⟩⟩
  | drop r _ => exact ⟨new, hd.quiet rfl fun desc hcur => ⟨desc, hcur, rfl⟩⟩
  | refused m e hcur hrequest =>
      rcases Mount.request_ledger_none hrequest with ⟨_, hlog⟩
      have hlog' : (m.emit e).log = d.mount.log := hlog
      exact ⟨new, booked_of_none (hlog' ▸ hd.kept) (hlog' ▸ hd.grown) hcur⟩
  | unopened id m data cause e hcur hrequest hopen =>
      rcases Mount.request_ledger_some hrequest with ⟨hfree, hlog, _⟩
      rcases hd.kept.handOut hfree with ⟨hkept, hgrown⟩
      have hlog' : ((m.modifyBuffer id (·.setData data)).emit e).log = d.mount.log.handOut := hlog
      exact ⟨_, booked_of_none (hlog' ▸ hkept) (hlog' ▸ hd.grown.trans hgrown) hcur⟩
  | opened id m m' data hcur hrequest hopen hfile =>
      exact ⟨_, hd.opened hrequest hfile _ _⟩
  | unfit desc r cause e hcur hroom hadd =>
      exact ⟨new, hd.quiet rfl fun desc hcur => ⟨desc, hcur, rfl⟩⟩
  | added desc desc' r hcur hroom hadd =>
      refine ⟨new, hd.quiet rfl fun desc'' hdesc => ⟨desc, hcur, ?_⟩⟩
      rw [← Option.some.inj hdesc, OpenDescriptor.buffer_add hadd]
  | lost desc e hcur habort => exact ⟨new, booked_of_none hd.kept hd.grown rfl⟩
  | unclosed desc data cause e hcur habort hclose =>
      exact ⟨new, booked_of_none hd.kept hd.grown rfl⟩
  | submitted desc data e hcur habort hclose =>
      let closed := (d.mount.modifyBuffer desc.buffer
        (fun b => ((b.setData data).setLogWrite true).setDirty false)).emit e
      have hblock : (closed.store.get desc.buffer).block =
          (d.mount.store.get desc.buffer).block := by
        change ((d.mount.store.modify _ _).get _).block = _
        rw [Store.get_modify]
        split
        · rfl
        · rfl
      have hlog : closed.log = d.mount.log := rfl
      rcases hd.submit hcur hlog hblock with ⟨hkept, hgrown⟩
      exact ⟨new, booked_of_none hkept hgrown rfl⟩

-- A strike reaches neither the buffers nor the blocks of the device.
theorem Booked.strike (hd : d.Booked start new) (s : Strike) :
    ({ d with mount := d.mount.strike s } : Draft Ledger).Booked start new := by
  cases s with
  | abort =>
      refine hd.quiet (Mount.log_abort d.mount) fun desc hcur => ⟨desc, hcur, ?_⟩
      change ((d.mount.abort).store.get _).block = _
      rw [Mount.store_of_core (Mount.core_abort d.mount)]
  | setFailing failing =>
      rcases hd.kept.setFailing failing with ⟨hkept, hgrown⟩
      have hall := hd.grown.trans hgrown
      rw [List.append_nil] at hall
      exact ⟨hkept, hall, hd.filling⟩

theorem StepsAmid.booked (h : StepsAmid tid width d d') (hd : d.Booked start new) :
    ∃ new', d'.Booked start new' := by
  induction h with
  | refl => exact ⟨new, hd⟩
  | step _ hstep ih =>
      rcases ih with ⟨new', hd'⟩
      exact hstep.booked hd'
  | strike _ s ih =>
      rcases ih with ⟨new', hd'⟩
      exact ⟨new', hd'.strike s⟩

end Draft

namespace Mount

/-- A commit under strikes keeps the books right, and writes to no block but those it is
    handed. -/
theorem commitAmid_booked (m : Mount Ledger) (h : m.log.Kept) (tid : Tid)
    (strikes : List Strikes) (last : List Strike) :
    ∃ new, (m.commitAmid tid strikes last).2.log.Kept ∧
      m.log.Grown (m.commitAmid tid strikes last).2.log new := by
  rcases Draft.stepsAmid_commitAmid m tid strikes last with ⟨d, e, hsteps, _, heq⟩
  have hbegin : Draft.Booked m.log [] (⟨m.drainTable.2, {}, none⟩ : Draft Ledger) :=
    Draft.booked_of_none h (.refl m.log) rfl
  rcases hsteps.booked hbegin with ⟨new, hd⟩
  rw [heq]
  exact ⟨new, hd.kept, hd.grown⟩

/-- So does every call. -/
theorem after_booked (m : Mount Ledger) (h : m.log.Kept) (c : Call) :
    ∃ new, (m.after c).log.Kept ∧ m.log.Grown (m.after c).log new := by
  by_cases hc : ∃ tid, c = .commit tid
  · rcases hc with ⟨tid, rfl⟩
    have hcommit := m.commitAmid_booked h tid [] []
    rw [commitAmid_nil] at hcommit
    exact hcommit
  · rcases m.log_after fun tid heq => hc ⟨tid, heq⟩ with hlog | ⟨tid, b, hlog⟩
    · rw [hlog]
      exact ⟨[], h, .refl _⟩
    · rw [hlog]
      exact ⟨[], h.forget tid b⟩

end Mount

namespace Ledger

/-- What can come of a log in one operation, which is handed the blocks `new`. -/
structure Next (l l' : Ledger) (new : List BlockNumber) : Prop where
  -- The area is the same.
  first_eq : l'.log.first = l.log.first
  last_eq : l'.log.last = l.log.last
  -- Blocks are handed out after the ones before.
  handed_eq : l'.handed = l.handed ++ new
  -- None of them was taken, and none is handed out twice.
  nodup : (l.taken ++ new).Nodup
  -- What was released stays released.
  released_le : l.released ≤ l'.released
  -- No other blocks are written to.
  read_eq : ∀ b, b ∉ new → l'.log.device.read b = l.log.device.read b
  -- So the blocks that are not released by then hold what they held.
  kept : ∀ i b, l.handed[i]? = some b → l'.released ≤ i →
    l'.log.device.read b = l.log.device.read b

variable {l l' : Ledger} {new : List BlockNumber}

theorem Kept.next (h : l.Kept) (hfirst : l'.log.first = l.log.first)
    (hlast : l'.log.last = l.log.last) (hhanded : l'.handed = l.handed ++ new)
    (hnodup : (l.taken ++ new).Nodup) (hreleased : l.released ≤ l'.released)
    (hread : ∀ b, b ∉ new → l'.log.device.read b = l.log.device.read b) : l.Next l' new := by
  refine ⟨hfirst, hlast, hhanded, hnodup, hreleased, hread, fun i b hb hi => hread b ?_⟩
  intro hmem
  refine (List.nodup_append.mp hnodup).2.2 b ?_ b hmem rfl
  rw [h.taken_eq, List.mem_iff_getElem?]
  refine ⟨i - l.released, ?_⟩
  rw [List.getElem?_drop, Nat.add_sub_of_le (Nat.le_trans hreleased hi), hb]

-- Blocks that are handed out while none are released are different from those taken.
theorem Grown.next (h : l.Grown l' new) (hl : l.Kept) (hl' : l'.Kept) : l.Next l' new := by
  have hnodup := hl'.cycled.nodup_taken
  rw [h.released_eq, h.handed_eq, List.drop_append_of_le_length hl.cycled.released_le,
    ← hl.taken_eq] at hnodup
  exact hl.next h.first_eq h.last_eq h.handed_eq hnodup (Nat.le_of_eq h.released_eq.symm) h.read_eq

-- Blocks are freed.
theorem Kept.release (h : l.Kept) (count : Nat) :
    ((l.release count).setLog (l.log.release count)).Kept ∧
      l.Next ((l.release count).setLog (l.log.release count)) [] := by
  have hreleased := h.cycled.released_le
  refine ⟨⟨h.cycled.release count, h.written_to, fun w hw htime => ?_⟩,
    h.next rfl rfl (List.append_nil _).symm ?_ ?_ fun _ _ => rfl⟩
  · have hlt := h.time_lt hw
    change min (l.released + count) l.handed.length ≤ w.time at htime
    exact h.intact w hw (by omega)
  · rw [List.append_nil, h.taken_eq]
    exact h.cycled.nodup_taken
  · change l.released ≤ min (l.released + count) l.handed.length
    omega

end Ledger

namespace Mount

open Ledger

/-- Every operation keeps the books right. -/
theorem bookOp_next (m : Mount Ledger) (h : m.log.Kept) (op : RingOp) :
    ∃ new, (m.bookOp op).log.Kept ∧ m.log.Next (m.bookOp op).log new := by
  cases op with
  | call c =>
      rcases m.after_booked h c with ⟨new, hkept, hgrown⟩
      exact ⟨new, hkept, hgrown.next h hkept⟩
  | commitAmid tid strikes last =>
      rcases m.commitAmid_booked h tid strikes last with ⟨new, hkept, hgrown⟩
      exact ⟨new, hkept, hgrown.next h hkept⟩
  | request =>
      rcases hr : m.request with ⟨_ | id, m'⟩
      · have hlog : (m.bookOp .request).log = m.log := by
          rw [bookOp, hr]
          exact (request_ledger_none hr).2
        rw [hlog]
        exact ⟨[], h, (Grown.refl _).next h h⟩
      · rcases request_ledger_some hr with ⟨hfree, hlog, _⟩
        rcases h.handOut hfree with ⟨hkept, hgrown⟩
        rw [bookOp, hr]
        exact ⟨_, hlog ▸ hkept, hlog ▸ hgrown.next h hkept⟩
  | wait tid =>
      rcases h.setLog (m.unbooked.wait tid).2.log h.cycled.fits rfl rfl rfl rfl rfl
        (fun _ => rfl) with ⟨hkept, hgrown⟩
      exact ⟨[], hkept, hgrown.next h hkept⟩
  | release count => exact ⟨[], h.release count⟩
  | setFailing failing =>
      rcases h.setFailing failing with ⟨hkept, hgrown⟩
      exact ⟨[], hkept, hgrown.next h hkept⟩
  | abort =>
      have hlog : (m.bookOp .abort).log = m.log := by
        change m.log.setLog m.unbooked.abort.log = m.log
        rw [log_abort]
        rfl
      rw [hlog]
      exact ⟨[], h, (Grown.refl _).next h h⟩

end Mount

namespace Ledger

/-- What holds of a log over the blocks from `first` up to `last`, on a device that was
    `device` when the log was made. -/
structure Safe (device : Device) (first last : BlockNumber) (l : Ledger) : Prop where
  -- The area is the same.
  first_eq : l.log.first = first.toNat
  last_eq : l.log.last = last.toNat
  -- The head is in the area.
  head_mem : first.toNat ≤ l.log.head ∧ l.log.head < last.toNat
  -- There are no more free blocks than blocks.
  free_le : l.log.free ≤ last.toNat - first.toNat
  -- The most recent blocks, as many as are not free, are all different.
  length_taken : l.taken.length = last.toNat - first.toNat - l.log.free
  nodup_taken : l.taken.Nodup
  -- They are blocks of the area.
  mem_area : ∀ b ∈ l.taken, first.toNat ≤ b.toNat ∧ b.toNat < last.toNat
  -- They are the ones that were not released.
  taken_eq : l.taken = l.handed.drop l.released
  -- Nothing outside the area was written to.
  outside : ∀ b : BlockNumber, ¬ (first.toNat ≤ b.toNat ∧ b.toNat < last.toNat) →
    l.log.device.read b = device.read b
  -- Every write went to the block that was handed out last.
  written_to : ∀ w ∈ l.written, l.handed[w.time]? = some w.block
  -- What was written is there until its block is released.
  intact : ∀ w ∈ l.written, l.released ≤ w.time → l.log.device.read w.block = .ok w.data

variable {device : Device} {first last : BlockNumber} {l l' : Ledger} {new : List BlockNumber}

theorem Kept.safe (h : l.Kept) (hfirst : l.log.first = first.toNat)
    (hlast : l.log.last = last.toNat)
    (houtside : ∀ b : BlockNumber, ¬ (first.toNat ≤ b.toNat ∧ b.toNat < last.toNat) →
      l.log.device.read b = device.read b) : l.Safe device first last := by
  have hhead := h.cycled.head_mem
  have hfree := h.cycled.free_le
  have hcount := h.cycled.free_eq
  have harea : ∀ b ∈ l.taken, l.log.first ≤ b.toNat ∧ b.toNat < l.log.last := fun b hb =>
    h.cycled.mem_area (List.mem_of_mem_drop hb)
  rw [RingLog.capacity] at hcount
  rw [hfirst, hlast] at hhead hfree hcount harea
  refine ⟨hfirst, hlast, hhead, hfree, ?_, ?_, harea, h.taken_eq, houtside, h.written_to, h.intact⟩
  · rw [h.taken_eq, List.length_drop]
    omega
  · rw [h.taken_eq]
    exact h.cycled.nodup_taken

-- What is handed out lies in the area, so nothing outside is written to.
theorem Next.read_outside (h : l.Next l' new) (hl' : l'.Kept) {b : BlockNumber}
    (hb : ¬ (l'.log.first ≤ b.toNat ∧ b.toNat < l'.log.last)) :
    l'.log.device.read b = l.log.device.read b := by
  refine h.read_eq b fun hmem => hb (hl'.cycled.mem_area ?_)
  rw [h.handed_eq]
  exact List.mem_append_right _ hmem

end Ledger

namespace Mount

open Ledger

-- Every run keeps the books right.
theorem bookOps_kept {m : Mount Ledger} (h : m.log.Kept) (ops : List RingOp) :
    (m.bookOps ops).log.Kept ∧ (m.bookOps ops).log.log.first = m.log.log.first ∧
    (m.bookOps ops).log.log.last = m.log.log.last ∧
    ∀ b : BlockNumber, ¬ (m.log.log.first ≤ b.toNat ∧ b.toNat < m.log.log.last) →
      (m.bookOps ops).log.log.device.read b = m.log.log.device.read b := by
  induction ops using List.reverseRecOn with
  | nil => exact ⟨h, rfl, rfl, fun _ _ => rfl⟩
  | append_singleton ops op ih =>
      rcases ih with ⟨hkept, hfirst, hlast, houtside⟩
      rcases (m.bookOps ops).bookOp_next hkept op with ⟨new, hkept', hnext⟩
      rw [bookOps_append]
      have hfirst' := hnext.first_eq.trans hfirst
      have hlast' := hnext.last_eq.trans hlast
      refine ⟨hkept', hfirst', hlast', fun b hb => ?_⟩
      rw [hnext.read_outside hkept' (by rw [hfirst', hlast']; exact hb), houtside b hb]

/-- Whatever is asked of a log, it hands out a block again only after it was released,
    counting releases oldest first. So it writes over nothing that was not released, and
    to no block outside its area. It refuses to hand out a block exactly if none is free. -/
theorem runOps_safe {device : Device} (hdevice : device.Made) {first last : BlockNumber}
    {m : Mount RingLog} (hlog : RingLog.create device first last = .ok m.log)
    (ops : List RingOp) :
    (m.booked.bookOps ops).unbooked = m.runOps ops ∧
    (m.booked.bookOps ops).log.Safe device first last ∧
    ((m.runOps ops).request.1 = none ↔ (m.runOps ops).log.free = 0) ∧
    (∀ id m', (m.runOps ops).request = (some id, m') →
      (m'.store.get id).block ∉ (m.booked.bookOps ops).log.taken) ∧
    ∀ op, ∃ new, (m.booked.bookOps ops).log.Next (m.booked.bookOps (ops ++ [op])).log new := by
  rcases RingLog.cycled_create hdevice.fits hlog with ⟨hcycled, hfirst, hlast, hstart⟩
  have hbegin : m.booked.log.Kept :=
    ⟨hcycled, fun w hw => absurd hw List.not_mem_nil, fun w hw => absurd hw List.not_mem_nil⟩
  rcases bookOps_kept hbegin ops with ⟨hkept, hfirst', hlast', houtside⟩
  change ∀ b : BlockNumber, ¬ (m.log.first ≤ b.toNat ∧ b.toNat < m.log.last) →
    _ = m.log.device.read b at houtside
  rw [hfirst, hlast, hstart] at houtside
  have hsame := m.unbooked_bookOps ops
  have hlogs : (m.runOps ops).log = (m.booked.bookOps ops).log.log := congrArg Mount.log hsame.symm
  refine ⟨hsame, hkept.safe (hfirst'.trans hfirst) (hlast'.trans hlast) houtside,
    request_eq_none_iff _, fun id m' hrequest => ?_, fun op => ?_⟩
  · rcases Draft.request_eq_some hrequest with ⟨hfree, _, _, _, hnew, _⟩
    rw [hlogs] at hfree hnew
    rw [hnew]
    exact hkept.head_not_mem hfree
  · rcases (m.booked.bookOps ops).bookOp_next hkept op with ⟨new, _, hnext⟩
    rw [bookOps_append]
    exact ⟨new, hnext⟩

end Mount

/-- A device of four blocks. -/
def middleDevice : Device :=
  ⟨1024, #[Bytes.zeros 1024, Bytes.zeros 1024, Bytes.zeros 1024, Bytes.zeros 1024], 0, false⟩

/-- A small journal with a log of two blocks in the middle of its device. -/
def middleMount : Mount RingLog :=
  { smallMount .release with log := ⟨middleDevice, 1, 3, 1, 2, [], [], []⟩ }

/-- Two commits. After the first more blocks are freed than were handed out, and after
    the second the log is asked for another one. -/
def middleOps : List RingOp :=
  [.call (.revoke ⟨1⟩ ⟨5⟩ none), .call (.commit ⟨1⟩), .wait ⟨1⟩, .release 7,
    .call (.revoke ⟨2⟩ ⟨6⟩ none), .call (.commit ⟨2⟩), .request]

-- The log has gone round, and the second commit is still there.
theorem runOps_safe_middle :
    (middleMount.booked.bookOps middleOps).log.handed = [⟨1⟩, ⟨2⟩, ⟨1⟩] ∧
    (middleMount.booked.bookOps middleOps).log.released = 1 ∧
    (middleMount.booked.bookOps middleOps).log.written.map Written.block = [⟨1⟩, ⟨2⟩] ∧
    (middleMount.booked.bookOps middleOps).log.Safe middleDevice ⟨1⟩ ⟨3⟩ ∧
    (middleMount.runOps middleOps).request.1 = none := by
  have hdevice : middleDevice.Made := .create (show Device.create 1024 4 = _ by decide +kernel)
  have hlog : RingLog.create middleDevice ⟨1⟩ ⟨3⟩ = .ok middleMount.log := by decide +kernel
  rcases Mount.runOps_safe hdevice hlog middleOps with ⟨_, hsafe, hrefuses, _, _⟩
  refine ⟨?_, ?_, ?_, hsafe, hrefuses.mpr ?_⟩
  · decide +kernel
  · decide +kernel
  · decide +kernel
  · decide +kernel

end BlockJournal
