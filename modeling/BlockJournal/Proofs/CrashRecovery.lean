import BlockJournal.Proofs.Calls
import BlockJournal.Proofs.Commit.Logging
import BlockJournal.Proofs.Gathering

/-!
# Recovery after a Crash

What a recovery finds out is what the journal knew.

A journal over a circular log runs one transaction after the other. Each revokes and
cancels, commits, and is waited for. `History` lists the transactions that are over,
with the table each had when it was committed and the blocks that its wait returned.
All that a recovery is given are the contents of these blocks, in any order, and yet
it tells which images are stale exactly as the tables would: an image is stale if the
table of its transaction or of a later one held its block.

What is kept from one transaction to the next is `Archived`: between transactions the
table is empty and the log has nothing to wait for, and every transaction that is over
still lies on the device as it was written.

## Main definitions

* `Device.readAll`: What some blocks of a device hold.
* `Committed`: A transaction that is over.
* `History`: A journal that has run some transactions.
* `RingLog.Keeps`: The descriptors of a transaction are on the device.
* `Archived`: What is kept from one transaction to the next.

## Theorems

* `History.archived`: What is kept holds after every history.
* `Archived.scan`: What a recovery gathers from the blocks of all transactions.
* `recovered_iff`: The images that a recovery finds stale.
-/

namespace BlockJournal

namespace Device

/-- What some blocks hold, if all of them can be read. -/
def readAll (d : Device) : List BlockNumber → Except Error (List (BlockNumber × Bytes))
  | [] => .ok []
  | b :: rest =>
      match d.read b, readAll d rest with
      | .ok data, .ok contents => .ok ((b, data) :: contents)
      | .error e, _ => .error e
      | _, .error e => .error e

-- Blocks that can be read one by one can be read together.
theorem readAll_eq_ok {d : Device} {blocks : List BlockNumber}
    (h : ∀ b ∈ blocks, ∃ data, d.read b = .ok data) :
    ∃ contents, d.readAll blocks = .ok contents ∧ contents.map Prod.fst = blocks ∧
      ∀ block ∈ contents, d.read block.1 = .ok block.2 := by
  induction blocks with
  | nil => exact ⟨[], rfl, rfl, fun block hblock => absurd hblock List.not_mem_nil⟩
  | cons b rest ih =>
      rcases h b List.mem_cons_self with ⟨data, hdata⟩
      rcases ih fun other hother => h other (List.mem_cons_of_mem b hother) with
        ⟨contents, hcontents, hfst, hread⟩
      refine ⟨(b, data) :: contents, by simp only [readAll, hdata, hcontents], ?_, ?_⟩
      · rw [List.map_cons, hfst]
      · intro block hblock
        rcases List.mem_cons.mp hblock with rfl | hblock
        · exact hdata
        · exact hread block hblock

end Device

/-- A transaction that is over. -/
structure Committed where
  -- Its id.
  tid : Tid
  -- The table when it was committed.
  table : Table
  -- The blocks that its wait returned.
  blocks : List BlockNumber

/-- A journal with these settings, over a circular log of its own, that has run these
    transactions. Their ids count up from `first`. -/
inductive History (config : Config) (first : Tid) : List Committed → Mount RingLog → Prop where
  -- The journal was just mounted.
  | mounted {build : Build} {n : Nat} {store : Store} {device : Device} {start stop : BlockNumber}
      {log : RingLog} {m : Mount RingLog} (hstore : Store.create n = .ok store)
      (hdevice : device.Made) (hlog : RingLog.create device start stop = .ok log)
      (hmount : Mount.create build config store log = .ok m) : History config first [] m
  -- Some calls, a commit that gave up no record, and a wait that went well.
  | transaction {past : List Committed} {m m' : Mount RingLog} {tid : Tid} {calls : List Call}
      {blocks : List BlockNumber} (h : History config first past m)
      (htid : tid = Tid.next^[past.length] first) (hcalls : ∀ c ∈ calls, ∀ t, c ≠ .commit t)
      (hdropped : ((m.run calls).commit tid).1.dropped = 0)
      (hwait : ((m.run calls).commit tid).2.wait tid = (.ok blocks, m')) :
      History config first (past ++ [⟨tid, (m.run calls).journal.table, blocks⟩]) m'

namespace RingLog

/-- The descriptors of a transaction are on the device: every block that its wait
    returned was handed out and lists blocks of its table, and together they list all
    blocks of the table. -/
structure Keeps (log : RingLog) (width : RecordWidth) (c : Committed) : Prop where
  -- What is listed was in the table.
  sound : ∀ b ∈ c.blocks, b.toNat < log.next ∧ ∃ entries,
    log.Holds width b ⟨c.tid, entries⟩ ∧ ∀ x ∈ entries, c.table.Holds x
  -- What was in the table is listed.
  complete : ∀ x, c.table.Holds x → ∃ b ∈ c.blocks, ∃ entries,
    log.Holds width b ⟨c.tid, entries⟩ ∧ x ∈ entries

-- What a log has handed out it leaves alone.
theorem Keeps.of_extends {log log' : RingLog} {width : RecordWidth} {c : Committed}
    (h : log.Keeps width c) (hext : log.Extends log') : log'.Keeps width c := by
  have hread : ∀ b ∈ c.blocks, log'.device.read b = log.device.read b := fun b hb =>
    hext.read_eq b (h.sound b hb).1
  refine ⟨fun b hb => ?_, fun x hx => ?_⟩
  · rcases h.sound b hb with ⟨hlt, entries, hholds, hentries⟩
    exact ⟨Nat.lt_of_lt_of_le hlt hext.next_le, entries,
      hholds.of_read (hread b hb) hext.blockSize_eq, hentries⟩
  · rcases h.complete x hx with ⟨b, hb, entries, hholds, hmem⟩
    exact ⟨b, hb, entries, hholds.of_read (hread b hb) hext.blockSize_eq, hmem⟩

-- What is read in a block of the transaction is one of its descriptors.
theorem Keeps.parse {log : RingLog} {width : RecordWidth} {c : Committed}
    (h : log.Keeps width c) {b : BlockNumber} (hb : b ∈ c.blocks) {data : Bytes}
    (hdata : log.device.read b = .ok data) :
    data.length = log.device.blockSize ∧ ∃ entries,
      RevokeBlock.parse data width = .ok ⟨c.tid, entries⟩ ∧ ∀ x ∈ entries, c.table.Holds x := by
  rcases h.sound b hb with ⟨_, entries, ⟨data', hdata', hlen, hparse⟩, hentries⟩
  rw [hdata, Except.ok.injEq] at hdata'
  subst hdata'
  exact ⟨hlen, entries, hparse, hentries⟩

end RingLog

namespace Mount

-- Between commits the log changes nothing but its list of buffers that were let go.
theorem log_run (m : Mount RingLog) {calls : List Call}
    (hcalls : ∀ c ∈ calls, ∀ t, c ≠ .commit t) :
    ∃ forgotten, (m.run calls).log = { m.log with forgotten := forgotten } := by
  induction calls generalizing m with
  | nil => exact ⟨m.log.forgotten, rfl⟩
  | cons c calls ih =>
      rcases ih (m.after c) fun other hother => hcalls other (List.mem_cons_of_mem c hother) with
        ⟨forgotten, hlog⟩
      refine ⟨forgotten, ?_⟩
      rw [run_cons, hlog]
      rcases m.log_after (hcalls c List.mem_cons_self) with hsame | ⟨tid, b, hforget⟩
      · rw [hsame]
      · rw [hforget]
        rfl

-- A wait changes marks of buffers and nothing else that is kept.
theorem Sound.after_wait {m m' : Mount RingLog} {config : Config} {cache : BlockSize}
    (hm : m.Sound config cache) {tid : Tid} {blocks : List BlockNumber}
    (hwait : m.wait tid = (.ok blocks, m')) :
    m'.Sound config cache ∧ m'.journal.table = m.journal.table := by
  rcases wait_eq_ok hwait with ⟨_, _, _, _, hcore, hmarks⟩
  have horderly : m'.Orderly config := hm.orderly.update hcore hm.isMap hm.fits rfl
  have hhoused : m'.Housed m.journal.blockSize cache :=
    hm.housed.update hcore hmarks.blockSize_eq (hm.coherent.remarked hmarks)
  refine ⟨hm.update horderly hhoused hcore hm.paid, ?_⟩
  have htable := congrArg (fun m => m.journal.table) hcore
  exact htable

-- What a transaction leaves behind that was committed and waited for: its descriptors
-- are on the device, what was there before still is, and there is nothing more to wait
-- for.
theorem keeps_of_wait {m m' : Mount RingLog} {config : Config} {cache : BlockSize}
    (hm : m.Sound config cache) (hlaid : m.log.Laid) (hpending : m.log.pending = []) {tid : Tid}
    (hdropped : (m.commit tid).1.dropped = 0) {blocks : List BlockNumber}
    (hwait : (m.commit tid).2.wait tid = (.ok blocks, m')) :
    m'.log.Laid ∧ m'.log.pending = [] ∧ m.log.Extends m'.log ∧
      m.log.next + blocks.length ≤ m'.log.next ∧
      m'.log.Keeps config.recordWidth ⟨tid, m.journal.table, blocks⟩ := by
  rcases m.commit_logging hlaid hpending tid with ⟨d, entries, hd, hcur, hstats, hlog, hstore⟩
  rcases Mount.wait_eq_ok hwait with ⟨hblocks, hlen, hfine, ⟨failed, hafter⟩, _, _⟩
  rw [hlog] at hblocks hlen hfine hafter
  rw [hstore] at hblocks hfine
  rw [hm.config_eq] at hd
  rw [hstats] at hdropped
  have hnext : m'.log.next = d.mount.log.next := by rw [hafter]; rfl
  have hfront : d.front = d.mount.log.next := by simp only [Draft.front, hcur]
  -- What was waited for was written, since no write failed.
  have hwritten : ∀ id, (tid, id) ∈ d.mount.log.pending → RingLog.Sent d.mount.store id →
      m'.log.Holds config.recordWidth (d.mount.store.get id).block ⟨tid, entries id⟩ ∧
        (d.mount.store.get id).block.toNat < m'.log.next := by
    intro id hid hsent
    rcases hd.sent id hid hsent with ⟨hwrote, hlt⟩
    rw [hnext, ← hfront]
    refine ⟨?_, hlt⟩
    exact (hwrote.resolve_left (hfine id hid hsent)).of_read (by rw [hafter]) (by rw [hafter])
  refine ⟨?_, ?_, ?_, ?_, fun b hb => ?_, fun x hx => ?_⟩
  · exact hd.laid.congr (by rw [hafter]; exact hd.laid.fits) (by rw [hafter]) (by rw [hafter])
      (by rw [hafter]) (by rw [hafter]) (by rw [hafter])
  · rw [hafter]
    refine List.filter_eq_nil_iff.mpr fun entry hentry => ?_
    simp only [(hd.filed entry hentry).1, ne_eq, not_true_eq_false, decide_false,
      Bool.false_eq_true, not_false_eq_true]
  · refine hd.grown.trans ⟨by rw [hafter], by rw [hafter], Nat.le_of_eq hnext.symm, fun b _ => ?_⟩
    rw [hafter]
  · have hcount := hd.count
    rw [hnext]
    omega
  · rcases (hblocks b).mp hb with ⟨id, hid, hsent, rfl⟩
    rcases hwritten id hid hsent with ⟨hholds, hlt⟩
    refine ⟨hlt, entries id, hholds, fun x hx => ?_⟩
    exact (Table.holds_iff_mem hm.isMap).mpr (hd.mem id hid hsent x hx)
  · rw [Table.holds_iff_mem hm.isMap] at hx
    rcases hd.kept hdropped x hx with ⟨desc, hdesc, _⟩ | ⟨id, hid, hsent, hmem⟩
    · rw [hcur] at hdesc
      exact absurd hdesc (by simp only [reduceCtorEq, not_false_eq_true])
    · exact ⟨_, (hblocks _).mpr ⟨id, hid, hsent, rfl⟩, entries id, (hwritten id hid hsent).1, hmem⟩

end Mount

/-- What is kept from one transaction to the next. -/
structure Archived (config : Config) (first : Tid) (past : List Committed) (m : Mount RingLog) :
    Prop where
  -- The mount is sound.
  sound : ∃ cache, m.Sound config cache
  -- The table is empty.
  records_eq : m.journal.table.records = []
  -- The log is in order.
  laid : m.log.Laid
  -- There is nothing to wait for.
  pending_eq : m.log.pending = []
  -- Every descriptor has a block of its own.
  count : (past.flatMap Committed.blocks).length ≤ m.log.next
  -- Every transaction is on the device.
  keeps : ∀ c ∈ past, m.log.Keeps config.recordWidth c
  -- The ids count up.
  tid_eq : ∀ c ∈ past, ∃ k < past.length, c.tid = Tid.next^[k] first

-- One more transaction.
theorem Archived.transaction {config : Config} {first : Tid} {past : List Committed}
    {m m' : Mount RingLog} (hm : Archived config first past m) {calls : List Call}
    (hcalls : ∀ c ∈ calls, ∀ t, c ≠ .commit t) {tid : Tid} {blocks : List BlockNumber}
    (htid : tid = Tid.next^[past.length] first)
    (hdropped : ((m.run calls).commit tid).1.dropped = 0)
    (hwait : ((m.run calls).commit tid).2.wait tid = (.ok blocks, m')) :
    Archived config first (past ++ [⟨tid, (m.run calls).journal.table, blocks⟩]) m' := by
  rcases hm.sound with ⟨cache, hsound⟩
  rcases m.log_run hcalls with ⟨forgotten, hlog⟩
  have hlaid : (m.run calls).log.Laid := by
    rw [hlog]
    exact hm.laid.congr hm.laid.fits rfl rfl rfl rfl rfl
  have hpending : (m.run calls).log.pending = [] := by
    rw [hlog]
    exact hm.pending_eq
  have hbegin : m.log.Extends (m.run calls).log := by
    rw [hlog]
    exact ⟨rfl, rfl, Nat.le_refl _, fun _ _ => rfl⟩
  have hrun := hsound.run calls
  rcases Mount.keeps_of_wait hrun hlaid hpending hdropped hwait with
    ⟨hlaid', hpending', hext, hnext, hkeeps⟩
  rcases (hrun.after_commit tid).after_wait hwait with ⟨hsound', htable⟩
  have hmore := hbegin.trans hext
  refine ⟨⟨cache, hsound'⟩, ?_, hlaid', hpending', ?_, fun c hc => ?_, fun c hc => ?_⟩
  · rw [htable, Mount.after, Mount.table_commit, Table.records_emptied]
  · have hcount := hm.count
    have hle := hbegin.next_le
    rw [List.flatMap_append, List.length_append, List.flatMap_singleton]
    simp only []
    omega
  · rcases List.mem_append.mp hc with hc | hc
    · exact (hm.keeps c hc).of_extends hmore
    · rw [List.mem_singleton.mp hc]
      exact hkeeps
  · rw [List.length_append, List.length_singleton]
    rcases List.mem_append.mp hc with hc | hc
    · rcases hm.tid_eq c hc with ⟨k, hk, htid'⟩
      exact ⟨k, Nat.lt_succ_of_lt hk, htid'⟩
    · rw [List.mem_singleton.mp hc]
      exact ⟨past.length, Nat.lt_succ_self _, htid⟩

/-- Whatever a journal has run, all of it is on the device. -/
theorem History.archived {config : Config} {first : Tid} {past : List Committed}
    {m : Mount RingLog} (h : History config first past m) : Archived config first past m := by
  induction h with
  | mounted hstore hdevice hlog hmount =>
      rcases Mount.sound_create hstore hmount with ⟨hsound, hrecords, _, _, _, _, hlog'⟩
      rcases RingLog.laid_create hdevice.fits hlog with ⟨hlaid, _, hpending, _⟩
      refine ⟨⟨_, hsound⟩, hrecords, hlog' ▸ hlaid, hlog' ▸ hpending, Nat.zero_le _, ?_, ?_⟩
      · exact fun c hc => absurd hc List.not_mem_nil
      · exact fun c hc => absurd hc List.not_mem_nil
  | transaction h htid hcalls hdropped hwait ih =>
      exact ih.transaction hcalls htid hdropped hwait

-- The ids of the transactions lie in a window.
theorem Archived.stepsFrom_lt {config : Config} {first : Tid} {past : List Committed}
    {m : Mount RingLog} (hm : Archived config first past m) (hlt : past.length < Tid.halfCircle)
    {c : Committed} (hc : c ∈ past) : c.tid.stepsFrom first < Tid.halfCircle := by
  rcases hm.tid_eq c hc with ⟨k, hk, htid⟩
  have hle : Tid.halfCircle ≤ UInt32.size := Nat.div_le_self _ _
  rw [htid, Tid.stepsFrom_iterate first (by omega)]
  omega

-- There are fewer revokes in the log than there are bytes, and these have addresses.
theorem Archived.length_revokesIn_lt {config : Config} {first : Tid} {past : List Committed}
    {m : Mount RingLog} (hm : Archived config first past m) {width : RecordWidth}
    {contents : List (BlockNumber × Bytes)}
    (hlen : contents.length = (past.flatMap Committed.blocks).length)
    (hsize : ∀ block ∈ contents, block.2.length = m.log.device.blockSize) :
    (revokesIn width contents).length < UInt64.size := by
  have hnext : m.log.next ≤ m.log.last := Nat.sub_le _ _
  have hcount : contents.length ≤ m.log.device.blockCount := by
    rw [hlen]
    exact Nat.le_trans hm.count (Nat.le_trans hnext hm.laid.last_le)
  calc (revokesIn width contents).length
      ≤ m.log.device.blockSize * contents.length := length_revokesIn_le hsize
    _ ≤ m.log.device.blockSize * m.log.device.blockCount := Nat.mul_le_mul_left _ hcount
    _ < UInt64.size := hm.laid.fits.lt

-- The blocks of all transactions can be read, and each is a descriptor of one of them.
theorem Archived.readAll {config : Config} {first : Tid} {past : List Committed}
    {m : Mount RingLog} (hm : Archived config first past m) {order : List BlockNumber}
    (horder : order.Perm (past.flatMap Committed.blocks)) :
    ∃ contents, m.log.device.readAll order = .ok contents ∧ contents.map Prod.fst = order ∧
      (∀ block ∈ contents, m.log.device.read block.1 = .ok block.2) ∧
      ∀ block ∈ contents, ∃ c ∈ past, block.2.length = m.log.device.blockSize ∧
        ∃ entries, RevokeBlock.parse block.2 config.recordWidth = .ok ⟨c.tid, entries⟩ ∧
          ∀ x ∈ entries, c.table.Holds x := by
  have howner : ∀ b ∈ order, ∃ c ∈ past, b ∈ c.blocks := fun b hb =>
    List.mem_flatMap.mp (horder.mem_iff.mp hb)
  have hreadable : ∀ b ∈ order, ∃ data, m.log.device.read b = .ok data := by
    intro b hb
    rcases howner b hb with ⟨c, hc, hb⟩
    rcases (hm.keeps c hc).sound b hb with ⟨_, _, ⟨data, hdata, _⟩, _⟩
    exact ⟨data, hdata⟩
  rcases Device.readAll_eq_ok hreadable with ⟨contents, hcontents, hfst, hread⟩
  refine ⟨contents, hcontents, hfst, hread, fun block hblock => ?_⟩
  have hb : block.1 ∈ order := by
    rw [← hfst]
    exact List.mem_map_of_mem hblock
  rcases howner block.1 hb with ⟨c, hc, hb⟩
  exact ⟨c, hc, (hm.keeps c hc).parse hb (hread block hblock)⟩

/-- A scan of the blocks of all transactions goes well, and what it gathers is what the
    tables held. -/
theorem Archived.scan {config : Config} {first : Tid} {past : List Committed}
    {m : Mount RingLog} (hm : Archived config first past m) (hlt : past.length < Tid.halfCircle)
    {order : List BlockNumber} (horder : order.Perm (past.flatMap Committed.blocks))
    {r : Recovery} (hr : r.Gathered first []) (hwidth : r.width = config.recordWidth) :
    ∃ contents seen r', m.log.device.readAll order = .ok contents ∧
      r.scan contents = (.ok (), r') ∧ r'.Gathered first seen ∧
      ∀ rec, rec ∈ seen ↔ ∃ c ∈ past, c.tid = rec.sequence ∧ c.table.Holds rec.block := by
  rcases hm.readAll horder with ⟨contents, hcontents, hfst, hread, hparse⟩
  have hlen : contents.length = (past.flatMap Committed.blocks).length := by
    rw [← horder.length_eq, ← hfst, List.length_map]
  have hfew : (revokesIn config.recordWidth contents).length < UInt64.size := by
    refine hm.length_revokesIn_lt hlen fun block hblock => ?_
    rcases hparse block hblock with ⟨_, _, hsize, _⟩
    exact hsize
  have hwindow : ∀ block ∈ contents, ∃ p, RevokeBlock.parse block.2 config.recordWidth = .ok p ∧
      p.sequence.stepsFrom first < Tid.halfCircle := by
    intro block hblock
    rcases hparse block hblock with ⟨c, hc, _, entries, hp, _⟩
    exact ⟨_, hp, hm.stepsFrom_lt hlt hc⟩
  rcases hr.scan hwidth hwindow (by simpa only [List.length_nil, Nat.zero_add] using hfew) with
    ⟨r', hscan, hr'⟩
  rw [List.nil_append] at hr'
  refine ⟨contents, _, r', hcontents, hscan, hr', fun rec => ?_⟩
  rw [mem_revokesIn]
  constructor
  · rintro ⟨block, hblock, p, hp, hmem, hsequence⟩
    rcases hparse block hblock with ⟨c, hc, _, entries, hp', hentries⟩
    rw [hp, Except.ok.injEq] at hp'
    subst hp'
    exact ⟨c, hc, hsequence.symm, hentries _ hmem⟩
  · rintro ⟨c, hc, htid, hholds⟩
    rcases (hm.keeps c hc).complete _ hholds with ⟨b, hb, entries, ⟨data, hdata, _, hp⟩, hmem⟩
    have hscanned : b ∈ contents.map Prod.fst := by
      rw [hfst]
      exact horder.mem_iff.mpr (List.mem_flatMap.mpr ⟨c, hc, hb⟩)
    rcases List.mem_map.mp hscanned with ⟨block, hblock, rfl⟩
    have hsame := hread block hblock
    rw [hdata, Except.ok.injEq] at hsame
    exact ⟨block, hblock, _, hsame ▸ hp, hmem, htid.symm⟩

-- A recovery that a journal between two transactions begins has gathered nothing.
theorem Archived.gathered {config : Config} {first : Tid} {past : List Committed}
    {m : Mount RingLog} (hm : Archived config first past m) (hlimit : config.recordLimit = none)
    {r : Recovery} (hr : m.beginRecovery = .ok r) (base : Tid) :
    r.Gathered base [] ∧ r.width = config.recordWidth := by
  rcases hm.sound with ⟨cache, hsound⟩
  have huse : m.pool.inUse = 0 := by
    rw [hsound.paid, hsound.isMap.len_eq, hm.records_eq]
    rfl
  have hunlimited : m.pool.limit = none := by
    rw [hsound.limit_eq, hlimit]
    rfl
  rw [← hsound.config_eq]
  exact Recovery.gathered_create hr huse hunlimited base

/-- A recovery that reads the blocks of all transactions, in any order, finds an image
    stale exactly if the table of its transaction or of a later one held its block. The
    recovery is begun by the journal itself or by one with the same settings that was
    mounted since. -/
theorem recovered_iff {config : Config} {first first' : Tid} {past past' : List Committed}
    {m m' : Mount RingLog} (h : History config first past m) (hlt : past.length < Tid.halfCircle)
    (hlimit : config.recordLimit = none) (h' : History config first' past' m') {r : Recovery}
    (hr : m'.beginRecovery = .ok r) {order : List BlockNumber}
    (horder : order.Perm (past.flatMap Committed.blocks)) :
    ∃ contents r', m.log.device.readAll order = .ok contents ∧ r.scan contents = (.ok (), r') ∧
      ∀ b i, i ≤ past.length →
        (r'.isStale b (Tid.next^[i] first) = true ↔
          ∃ c ∈ past, c.tid.isAtOrAfter (Tid.next^[i] first) = true ∧ c.table.Holds b) := by
  rcases h'.archived.gathered hlimit hr first with ⟨hgathered, hwidth⟩
  rcases h.archived.scan hlt horder hgathered hwidth with
    ⟨contents, seen, r', hcontents, hscan, hr', hseen⟩
  refine ⟨contents, r', hcontents, hscan, fun b i hi => ?_⟩
  have hle : Tid.halfCircle ≤ UInt32.size := Nat.div_le_self _ _
  have hwindow : (Tid.next^[i] first).stepsFrom first < Tid.halfCircle := by
    rw [Tid.stepsFrom_iterate first (by omega)]
    omega
  rw [hr'.isStale_iff b hwindow]
  constructor
  · rintro ⟨rec, hmem, rfl, hafter⟩
    rcases (hseen rec).mp hmem with ⟨c, hc, htid, hholds⟩
    exact ⟨c, hc, htid ▸ hafter, hholds⟩
  · rintro ⟨c, hc, hafter, hholds⟩
    exact ⟨⟨b, c.tid⟩, (hseen _).mpr ⟨c, hc, rfl, hholds⟩, rfl, hafter⟩

/-- The settings of a small journal without a limit. -/
def unlimitedConfig : Config := { smallConfig with recordLimit := none }

/-- An empty device for two descriptors. -/
def smallDevice : Device := ⟨1024, #[Bytes.zeros 1024, Bytes.zeros 1024], 0, false⟩

/-- A small journal without a limit that was just mounted. -/
def unlimitedMount : Mount RingLog :=
  { smallMount .release with
    journal.config := unlimitedConfig
    pool := Pool.new none
    log := ⟨smallDevice, 0, 2, 0, 2, [], [], []⟩ }

/-- The last transaction before the ids wrap revokes two blocks. -/
def callsBeforeWrap : List Call :=
  [.revoke ⟨4294967295⟩ ⟨5⟩ none, .revoke ⟨4294967295⟩ ⟨7⟩ none]

/-- The first transaction after the ids wrapped revokes one of them again. -/
def callsAfterWrap : List Call := [.revoke ⟨0⟩ ⟨7⟩ none]

/-- The first of the two transactions is over. -/
def mountAtWrap : Mount RingLog :=
  (((unlimitedMount.run callsBeforeWrap).commit ⟨4294967295⟩).2.wait ⟨4294967295⟩).2

/-- Both transactions are over. -/
def mountAfterWrap : Mount RingLog :=
  (((mountAtWrap.run callsAfterWrap).commit ⟨0⟩).2.wait ⟨0⟩).2

/-- What the two transactions were. -/
def pastWrap : List Committed :=
  [⟨⟨4294967295⟩, (unlimitedMount.run callsBeforeWrap).journal.table, [⟨0⟩]⟩,
    ⟨⟨0⟩, (mountAtWrap.run callsAfterWrap).journal.table, [⟨1⟩]⟩]

theorem history_wrap : History unlimitedConfig ⟨4294967295⟩ pastWrap mountAfterWrap := by
  have hstore : Store.create 1024 = .ok smallStore := rfl
  have hdevice : Device.create 1024 2 = .ok smallDevice := by decide +kernel
  have hlog : RingLog.create smallDevice ⟨0⟩ ⟨2⟩ = .ok unlimitedMount.log := by decide +kernel
  have hmount : Mount.create .release unlimitedConfig smallStore unlimitedMount.log =
      .ok unlimitedMount := rfl
  have hrevoke : ∀ tid b t, Call.revoke tid b none ≠ .commit t := by
    intro tid b t
    simp only [ne_eq, reduceCtorEq, not_false_eq_true]
  have hcalls : ∀ c ∈ callsBeforeWrap, ∀ t, c ≠ .commit t :=
    List.forall_mem_cons.mpr ⟨hrevoke _ _, List.forall_mem_singleton.mpr (hrevoke _ _)⟩
  have hcalls' : ∀ c ∈ callsAfterWrap, ∀ t, c ≠ .commit t :=
    List.forall_mem_singleton.mpr (hrevoke _ _)
  have hkept : ((unlimitedMount.run callsBeforeWrap).commit ⟨4294967295⟩).1.dropped = 0 := by
    decide +kernel
  have hwait : (((unlimitedMount.run callsBeforeWrap).commit ⟨4294967295⟩).2.wait
      ⟨4294967295⟩).1 = .ok [⟨0⟩] := by decide +kernel
  have hkept' : ((mountAtWrap.run callsAfterWrap).commit ⟨0⟩).1.dropped = 0 := by decide +kernel
  have hwait' : (((mountAtWrap.run callsAfterWrap).commit ⟨0⟩).2.wait ⟨0⟩).1 = .ok [⟨1⟩] := by
    decide +kernel
  have hpair : ∀ (m : Mount RingLog) tid blocks, (m.wait tid).1 = .ok blocks →
      m.wait tid = (.ok blocks, (m.wait tid).2) := fun m tid blocks h => Prod.ext h rfl
  have htid : (⟨4294967295⟩ : Tid) = Tid.next^[([] : List Committed).length] ⟨4294967295⟩ := rfl
  have hone : History unlimitedConfig ⟨4294967295⟩
      [⟨⟨4294967295⟩, (unlimitedMount.run callsBeforeWrap).journal.table, [⟨0⟩]⟩] mountAtWrap :=
    (History.mounted hstore (.create hdevice) hlog hmount).transaction htid hcalls hkept
      (hpair _ _ _ hwait)
  refine hone.transaction ?_ hcalls' hkept' (hpair _ _ _ hwait')
  decide

-- What a recovery finds out about the two transactions from their blocks, the later
-- one first.
theorem recovered_wrap :
    ∃ r contents r', mountAfterWrap.beginRecovery = .ok r ∧
      mountAfterWrap.log.device.readAll [⟨1⟩, ⟨0⟩] = .ok contents ∧
      r.scan contents = (.ok (), r') ∧
      r'.isStale ⟨5⟩ ⟨4294967295⟩ = true ∧ r'.isStale ⟨5⟩ ⟨0⟩ = false ∧
      r'.isStale ⟨7⟩ ⟨0⟩ = true ∧ r'.isStale ⟨7⟩ ⟨1⟩ = false := by
  have hok : mountAfterWrap.beginRecovery.isOk = true := by decide +kernel
  have horder : List.Perm [⟨1⟩, ⟨0⟩] (pastWrap.flatMap Committed.blocks) := .swap _ _ _
  have hlt : pastWrap.length < Tid.halfCircle := by decide
  cases hr : mountAfterWrap.beginRecovery with
  | error e =>
      rw [hr] at hok
      exact absurd hok Bool.false_ne_true
  | ok r =>
      rcases recovered_iff history_wrap hlt rfl history_wrap hr horder with
        ⟨contents, r', hcontents, hscan, hstale⟩
      refine ⟨r, contents, r', rfl, hcontents, hscan, ?_, ?_, ?_, ?_⟩
      · exact (hstale ⟨5⟩ 0 (by decide)).mpr (by decide +kernel)
      · rw [Bool.eq_false_iff]
        exact fun h => absurd ((hstale ⟨5⟩ 1 (by decide)).mp h) (by decide +kernel)
      · exact (hstale ⟨7⟩ 1 (by decide)).mpr (by decide +kernel)
      · rw [Bool.eq_false_iff]
        exact fun h => absurd ((hstale ⟨7⟩ 2 (by decide)).mp h) (by decide +kernel)

end BlockJournal
