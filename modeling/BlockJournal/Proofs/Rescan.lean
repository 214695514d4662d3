import BlockJournal.Proofs.RecoveryMerge

/-!
# Scans that Fail

What a scan leaves behind when it stops early, and why it can be tried again.

A scan stops at a descriptor that cannot be read, or inside one whose entries need a
record that the pool does not pay for. The blocks before it have been read then, and they
count; of the block itself there is at most a first part of the entries in the table, and
no counter has moved. So whatever way a scan ends, what it has gathered is a first part of
what the log lists (`Merged.of_scan`).

Gathering a revoke a second time changes nothing, and neither does gathering an earlier
one, as long as the transactions lie in a window. A recovery that has gone wrong any number
of times therefore holds what is in the log once a scan goes through, and nothing else.

## Main definitions

* `InWindow`: A log whose transactions lie in a window.
* `Recovery.Rejected`: The end of a scan at a descriptor that cannot be read.
* `Recovery.CutShort`: The end of a scan inside a descriptor.
* `Recovery.Fresh`: A recovery that has gathered nothing yet.
* `Recovery.rescans`: Scans of one log one after the other.

## Theorems

* `addAll_cases`, `scanBlock_error`, `scan_cases`: Where gathering can stop.
* `lookup_addAll`: What the entries of a descriptor do to the table as a map.
* `Merged.of_addAll`, `Merged.of_scanBlock`, `Merged.of_scan`: What was gathered, however
  it ended.
* `scan_failure_and_rescan`: How a scan fails, and what a later one comes to.
-/

namespace BlockJournal

/-- The transactions of the descriptors in a log lie in the window that starts at `base`. -/
def InWindow (width : RecordWidth) (base : Tid) (blocks : List (BlockNumber × Bytes)) : Prop :=
  ∀ block ∈ blocks, ∀ p, RevokeBlock.parse block.2 width = .ok p →
    p.sequence.stepsFrom base < Tid.halfCircle

theorem InWindow.of_readable {width : RecordWidth} {base : Tid}
    {blocks : List (BlockNumber × Bytes)} (h : ∀ block ∈ blocks, Readable width base block.2) :
    InWindow width base blocks := by
  intro block hblock p hparse
  rcases h block hblock with hother | ⟨q, hq, hwindow⟩
  · rw [RevokeBlock.isRevokeBlock_of_parse hparse] at hother
    exact absurd hother (by simp only [reduceCtorEq, not_false_eq_true])
  · rw [hparse, Except.ok.injEq] at hq
    exact hq ▸ hwindow

namespace Recovery

variable {r r' : Recovery}

-- A scan of a log is a scan of a first part of it and then of the rest.
theorem scan_append (r : Recovery) (first rest : List (BlockNumber × Bytes)) :
    r.scan (first ++ rest) =
      match r.scan first with
      | (.error stop, r) => (.error stop, r)
      | (.ok (), r) => r.scan rest := by
  induction first generalizing r with
  | nil => rfl
  | cons block first ih =>
      cases hrevoke : isRevokeBlock block.2 with
      | false => simp only [List.cons_append, scan, hrevoke, Bool.false_eq_true, if_false, ih]
      | true =>
          rcases hscan : r.scanBlock block.1 block.2 with ⟨stop | entries, r₁⟩
          · simp only [List.cons_append, scan, hrevoke, if_true, hscan]
          · simp only [List.cons_append, scan, hrevoke, if_true, hscan, ih r₁]

-- A revoke that is refused leaves the table as it was.
theorem table_of_add_error {b : BlockNumber} {sequence : Tid} {stop : Stop}
    (h : r.add b sequence = (.error stop, r')) : r'.table = r.table := by
  rcases r.add_cases b sequence with ⟨_, r₁, hadd, _, htable⟩ | ⟨_, hadd, _⟩ | ⟨_, _, _, _, _, hadd⟩
  · rw [hadd, Prod.mk.injEq] at h
    rw [← h.2, htable]
  all_goals
    rw [hadd, Prod.mk.injEq] at h
    exact absurd h.1 (by simp only [reduceCtorEq, not_false_eq_true])

/-- Gathering the revokes of a transaction comes to its end, or it gives up at one of them
    when those before it have been gathered. -/
theorem addAll_cases (r : Recovery) (sequence : Tid) (blocks : List BlockNumber) :
    (∃ r', r.addAll sequence blocks = (.ok (), r')) ∨
    ∃ done b rest r₁ stop r', blocks = done ++ b :: rest ∧
      r.addAll sequence done = (.ok (), r₁) ∧ r₁.add b sequence = (.error stop, r') ∧
      r.addAll sequence blocks = (.error stop, r') := by
  induction blocks generalizing r with
  | nil => exact Or.inl ⟨r, rfl⟩
  | cons b blocks ih =>
      rcases hadd : r.add b sequence with ⟨stop | ⟨⟩, r₁⟩
      · refine Or.inr ⟨[], b, blocks, r, stop, r₁, rfl, rfl, hadd, ?_⟩
        simp only [addAll, hadd]
      · simp only [addAll, hadd]
        rcases ih r₁ with ⟨r', hall⟩ | ⟨done, b', rest, r₂, stop, r', rfl, hdone, hstop, hall⟩
        · exact Or.inl ⟨r', hall⟩
        · refine Or.inr ⟨b :: done, b', rest, r₂, stop, r', rfl, ?_, hstop, hall⟩
          simp only [addAll, hadd, hdone]

/-- A descriptor that cannot be read is reported, and otherwise only gathering can stop. -/
theorem scanBlock_error {logBlock : BlockNumber} {data : Bytes} {stop : Stop}
    (h : r.scanBlock logBlock data = (.error stop, r')) :
    (∃ e, RevokeBlock.parse data r.width = .error e ∧
      stop = .failed (.corruptRevokeBlock logBlock e) ∧ r' = r.emit (.scanFailed logBlock e)) ∨
    ∃ p, RevokeBlock.parse data r.width = .ok p ∧
      r.addAll p.sequence p.blocks = (.error stop, r') := by
  unfold scanBlock at h
  cases hparse : RevokeBlock.parse data r.width with
  | error e =>
      simp only [hparse, Prod.mk.injEq, Except.error.injEq] at h
      exact Or.inl ⟨e, rfl, h.1.symm, h.2.symm⟩
  | ok p =>
      rcases hadd : r.addAll p.sequence p.blocks with ⟨stop' | ⟨⟩, r₁⟩
      · simp only [hparse, hadd, Prod.mk.injEq, Except.error.injEq] at h
        exact Or.inr ⟨p, rfl, by rw [hadd, h.1, h.2]⟩
      · simp only [hparse, hadd, Prod.mk.injEq, reduceCtorEq, false_and] at h

/-- A scan comes to its end, or it stops at a descriptor when the blocks before it have been
    scanned. -/
theorem scan_cases (r : Recovery) (blocks : List (BlockNumber × Bytes)) :
    (∃ r', r.scan blocks = (.ok (), r')) ∨
    ∃ before block after r₁ stop r', blocks = before ++ block :: after ∧
      r.scan before = (.ok (), r₁) ∧ isRevokeBlock block.2 = true ∧
      r₁.scanBlock block.1 block.2 = (.error stop, r') ∧ r.scan blocks = (.error stop, r') := by
  induction blocks generalizing r with
  | nil => exact Or.inl ⟨r, rfl⟩
  | cons block blocks ih =>
      cases hrevoke : isRevokeBlock block.2 with
      | false =>
          simp only [scan, hrevoke, Bool.false_eq_true, if_false]
          rcases ih { r with stats.otherBlocks := r.stats.otherBlocks + 1 } with
            hall | ⟨before, bad, after, r₁, stop, r', rfl, hbefore, hbad, hstop, hall⟩
          · exact Or.inl hall
          · refine Or.inr ⟨block :: before, bad, after, r₁, stop, r', rfl, ?_, hbad, hstop, hall⟩
            simp only [scan, hrevoke, Bool.false_eq_true, if_false, hbefore]
      | true =>
          rcases hscan : r.scanBlock block.1 block.2 with ⟨stop | entries, r₁⟩
          · refine Or.inr ⟨[], block, blocks, r, stop, r₁, rfl, rfl, hrevoke, hscan, ?_⟩
            simp only [scan, hrevoke, if_true, hscan]
          · simp only [scan, hrevoke, if_true, hscan]
            rcases ih r₁ with
              hall | ⟨before, bad, after, r₂, stop, r', rfl, hbefore, hbad, hstop, hall⟩
            · exact Or.inl hall
            · refine Or.inr ⟨block :: before, bad, after, r₂, stop, r', rfl, ?_, hbad, hstop, hall⟩
              simp only [scan, hrevoke, if_true, hscan, hbefore]

@[simp] theorem width_scanBlock (r : Recovery) (logBlock : BlockNumber) (data : Bytes) :
    (r.scanBlock logBlock data).2.width = r.width := by
  unfold scanBlock
  cases RevokeBlock.parse data r.width with
  | error e => rfl
  | ok p =>
      have hkeeps := (addAll_keeps r p.sequence p.blocks).1
      rcases hadd : r.addAll p.sequence p.blocks with ⟨stop | ⟨⟩, r₁⟩
      all_goals
        rw [hadd] at hkeeps
        simp only [hadd]
        exact hkeeps

@[simp] theorem width_scan (r : Recovery) (blocks : List (BlockNumber × Bytes)) :
    (r.scan blocks).2.width = r.width := by
  induction blocks generalizing r with
  | nil => rfl
  | cons block blocks ih =>
      cases hrevoke : isRevokeBlock block.2 with
      | false => simp only [scan, hrevoke, Bool.false_eq_true, if_false, ih]
      | true =>
          have hwidth := width_scanBlock r block.1 block.2
          rcases hscan : r.scanBlock block.1 block.2 with ⟨stop | entries, r₁⟩
          all_goals
            rw [hscan] at hwidth
            simp only [scan, hrevoke, if_true, hscan, ih]
            exact hwidth

-- The later of two transactions is still the later if the second comes again.
theorem merged_of_lookup {t t' : Table} {b : BlockNumber} {sequence : Tid}
    (h : t'.lookup b = some ⟨b, t.merged b sequence⟩) :
    t'.merged b sequence = t.merged b sequence := by
  have hself : sequence.isAfter sequence = false := by
    simp only [Tid.isAfter, Tid.stepsFrom, UInt32.sub_self, UInt32.toNat_zero, Nat.lt_irrefl,
      decide_false, Bool.false_and]
  have hidem : ∀ old : Tid, (old.latest sequence).latest sequence = old.latest sequence := by
    intro old
    unfold Tid.latest
    by_cases hlater : sequence.isAfter old = true
    · simp only [hlater, if_true, hself, Bool.false_eq_true, if_false]
    · simp only [if_neg hlater]
  simp only [Table.merged, h]
  cases t.lookup b with
  | none => simp only [Tid.latest, hself, Bool.false_eq_true, if_false]
  | some found => exact hidem found.sequence

/-- The entries of a descriptor that were gathered have the later of its transaction and the
    one they had, and the other blocks have theirs. -/
theorem lookup_addAll (hm : r.table.IsMap) {sequence : Tid} {blocks : List BlockNumber}
    (h : r.addAll sequence blocks = (.ok (), r')) :
    r'.table.IsMap ∧ ∀ b, r'.table.lookup b =
      if b ∈ blocks then some ⟨b, r.table.merged b sequence⟩ else r.table.lookup b := by
  induction blocks generalizing r with
  | nil =>
      simp only [addAll, Prod.mk.injEq, true_and] at h
      rw [← h]
      exact ⟨hm, fun b => by rw [if_neg List.not_mem_nil]⟩
  | cons first blocks ih =>
      rcases hadd : r.add first sequence with ⟨stop | ⟨⟩, r₁⟩
      · simp only [addAll, hadd, Prod.mk.injEq, reduceCtorEq, false_and] at h
      · simp only [addAll, hadd] at h
        rcases lookup_add hm hadd with ⟨hm₁, hlookup₁⟩
        rcases ih hm₁ h with ⟨hm', hlookup⟩
        refine ⟨hm', fun b => ?_⟩
        rw [hlookup]
        by_cases hb : b = first
        · have hfirst := hlookup₁ first
          rw [if_pos rfl] at hfirst
          rw [hb, if_pos List.mem_cons_self, merged_of_lookup hfirst, hfirst, ite_self]
        · have hother := hlookup₁ b
          rw [if_neg hb] at hother
          have hmerged : r₁.table.merged b sequence = r.table.merged b sequence := by
            simp only [Table.merged, hother]
          rw [hmerged, hother]
          simp only [List.mem_cons, hb, false_or]

-- A table that is a map stays one, whatever way it ends.
theorem isMap_addAll (hm : r.table.IsMap) (sequence : Tid) (blocks : List BlockNumber) :
    (r.addAll sequence blocks).2.table.IsMap := by
  induction blocks generalizing r with
  | nil => exact hm
  | cons b blocks ih =>
      rcases hadd : r.add b sequence with ⟨stop | ⟨⟩, r₁⟩
      · simp only [addAll, hadd, table_of_add_error hadd]
        exact hm
      · simp only [addAll, hadd]
        exact ih (lookup_add hm hadd).1

theorem isMap_scanBlock (hm : r.table.IsMap) (logBlock : BlockNumber) (data : Bytes) :
    (r.scanBlock logBlock data).2.table.IsMap := by
  unfold scanBlock
  cases RevokeBlock.parse data r.width with
  | error e => exact hm
  | ok p =>
      have hall := isMap_addAll hm p.sequence p.blocks
      rcases hadd : r.addAll p.sequence p.blocks with ⟨stop | ⟨⟩, r₁⟩
      all_goals
        rw [hadd] at hall
        simp only [hadd]
        exact hall

theorem isMap_scan (hm : r.table.IsMap) (blocks : List (BlockNumber × Bytes)) :
    (r.scan blocks).2.table.IsMap := by
  induction blocks generalizing r with
  | nil => exact hm
  | cons block blocks ih =>
      cases hrevoke : isRevokeBlock block.2 with
      | false =>
          simp only [scan, hrevoke, Bool.false_eq_true, if_false]
          exact ih hm
      | true =>
          have hblock := isMap_scanBlock hm block.1 block.2
          rcases hscan : r.scanBlock block.1 block.2 with ⟨stop | entries, r₁⟩
          · rw [hscan] at hblock
            simp only [scan, hrevoke, if_true, hscan]
            exact hblock
          · rw [hscan] at hblock
            simp only [scan, hrevoke, if_true, hscan]
            exact ih hblock

/-- The end of a scan at a descriptor that cannot be read. -/
structure Rejected (r : Recovery) (before : List (BlockNumber × Bytes)) (logBlock : BlockNumber)
    (cause : FieldError) (outcome : Except Stop Unit × Recovery) : Prop where
  -- It is reported that the log is corrupt, where that is, and what is wrong there.
  reported : ∃ e, outcome.1 = .error (.failed e) ∧ e.category = .corruption logBlock ∧
    e.detail = "revoke block: " ++ cause.message
  -- Nothing but the blocks before it has left a trace in the table, ...
  table_eq : outcome.2.table = (r.scan before).2.table
  -- ... been paid for, ...
  pool_eq : outcome.2.pool = (r.scan before).2.pool
  -- ... or been counted.
  stats_eq : outcome.2.stats = (r.scan before).2.stats

/-- The end of a scan inside a descriptor, at an entry that the pool does not pay for. -/
structure CutShort (r : Recovery) (before : List (BlockNumber × Bytes)) (data : Bytes)
    (p : RevokeBlock) (done : List BlockNumber) (r' : Recovery) : Prop where
  -- The blocks before it have been scanned.
  scanned : (r.scan before).1 = .ok ()
  -- It can be read.
  parsed : RevokeBlock.parse data r.width = .ok p
  -- Some of its entries have been gathered.
  gathered : ((r.scan before).2.addAll p.sequence done).1 = .ok ()
  -- There is nothing else in the table.
  table_eq : r'.table = ((r.scan before).2.addAll p.sequence done).2.table
  -- In a table that is a map they have the later of its transaction and the one they had.
  revokedIn_eq : r.table.IsMap → ∀ b, r'.revokedIn b =
    if b ∈ done then some ((r.scan before).2.table.merged b p.sequence)
    else (r.scan before).2.revokedIn b
  -- Only the blocks before it count.
  stats_eq : r'.stats = (r.scan before).2.stats

-- A scan that meets a descriptor it cannot read ends there.
theorem rejected_of_parse {before after : List (BlockNumber × Bytes)} {bad : BlockNumber × Bytes}
    {e : FieldError} (hbefore : (r.scan before).1 = .ok ()) (hrevoke : isRevokeBlock bad.2 = true)
    (hparse : RevokeBlock.parse bad.2 r.width = .error e) :
    r.Rejected before bad.1 e (r.scan (before ++ bad :: after)) := by
  have hwidth := width_scan r before
  rcases hscan : r.scan before with ⟨_ | ⟨⟩, r₁⟩
  · rw [hscan] at hbefore
    exact absurd hbefore (by simp only [reduceCtorEq, not_false_eq_true])
  · rw [hscan] at hwidth
    have hbad : r₁.scanBlock bad.1 bad.2 =
        (.error (.failed (.corruptRevokeBlock bad.1 e)), r₁.emit (.scanFailed bad.1 e)) := by
      rw [← hwidth] at hparse
      simp only [scanBlock, hparse]
    have hall : r.scan (before ++ bad :: after) =
        (.error (.failed (.corruptRevokeBlock bad.1 e)), r₁.emit (.scanFailed bad.1 e)) := by
      simp only [scan_append, hscan, scan, hrevoke, if_true, hbad]
    rw [hall]
    exact ⟨⟨_, rfl, rfl, rfl⟩, by rw [hscan]; rfl, by rw [hscan]; rfl, by rw [hscan]; rfl⟩

-- A scan that stops for any other reason stops at an entry that was refused.
theorem cutShort_of_scan {blocks : List (BlockNumber × Bytes)} {stop : Stop}
    (h : r.scan blocks = (.error stop, r'))
    (hcause : ∀ logBlock cause, stop ≠ .failed (.corruptRevokeBlock logBlock cause)) :
    ∃ before block after p done b rest, blocks = before ++ block :: after ∧
      p.blocks = done ++ b :: rest ∧ r.CutShort before block.2 p done r' := by
  rcases scan_cases r blocks with
    ⟨r₁, hall⟩ | ⟨before, block, after, r₁, stop', r₂, hsplit, hbefore, _, hstop, hall⟩
  · rw [hall, Prod.mk.injEq] at h
    exact absurd h.1 (by simp only [reduceCtorEq, not_false_eq_true])
  · rw [hall, Prod.mk.injEq, Except.error.injEq] at h
    rcases h with ⟨rfl, rfl⟩
    have hwidth := width_scan r before
    rw [hbefore] at hwidth
    rcases scanBlock_error hstop with ⟨e, _, rfl, _⟩ | ⟨p, hparse, hadd⟩
    · exact absurd rfl (hcause _ _)
    rw [hwidth] at hparse
    rcases addAll_cases r₁ p.sequence p.blocks with
      ⟨r₃, hdone⟩ | ⟨done, b, rest, r₃, stop'', r₄, hsplit', hdone, hrefused, hadd'⟩
    · rw [hdone, Prod.mk.injEq] at hadd
      exact absurd hadd.1 (by simp only [reduceCtorEq, not_false_eq_true])
    rw [hadd', Prod.mk.injEq, Except.error.injEq] at hadd
    rcases hadd with ⟨rfl, rfl⟩
    have htable := table_of_add_error hrefused
    refine ⟨before, block, after, p, done, b, rest, hsplit, hsplit', ?_⟩
    constructor
    · rw [hbefore]
    · exact hparse
    · rw [hbefore, hdone]
    · rw [hbefore, hdone, htable]
    · intro hm other
      have hm₁ := isMap_scan hm before
      rw [hbefore] at hm₁ ⊢
      rw [revokedIn, htable, (lookup_addAll hm₁ hdone).2, revokedIn]
      exact apply_ite _ _ _ _
    · have hkeeps := (addAll_keeps r₁ p.sequence p.blocks).2
      rw [hadd'] at hkeeps
      rw [hbefore, hkeeps]

variable {base : Tid} {seen : List Record}

-- What was gathered is in the table.
theorem Merged.of_table_eq (hr : r.Merged base seen) (h : r'.table = r.table) :
    r'.Merged base seen :=
  ⟨h ▸ hr.isMap, hr.window, h ▸ hr.mem, h ▸ hr.latest⟩

/-- Whatever way it ends, gathering the revokes of a transaction gathers a first part of
    them. -/
theorem Merged.of_addAll (hr : r.Merged base seen) {sequence : Tid}
    (hwindow : sequence.stepsFrom base < Tid.halfCircle) (blocks : List BlockNumber) :
    ∃ done, done <+: (⟨sequence, blocks⟩ : RevokeBlock).records ∧
      (r.addAll sequence blocks).2.Merged base (seen ++ done) ∧
      ((r.addAll sequence blocks).1 = .ok () →
        done = (⟨sequence, blocks⟩ : RevokeBlock).records) := by
  induction blocks generalizing r seen with
  | nil =>
      refine ⟨[], List.nil_prefix, ?_, fun _ => rfl⟩
      rw [List.append_nil]
      exact hr
  | cons b blocks ih =>
      rcases r.add_cases b sequence with ⟨stop, r₁, hadd, _, htable⟩ | hcase
      · refine ⟨[], List.nil_prefix, ?_, fun h => ?_⟩
        · simp only [Recovery.addAll, hadd, List.append_nil]
          exact hr.of_table_eq htable
        · simp only [Recovery.addAll, hadd, reduceCtorEq] at h
      · have hok : ∃ r₁, r.add b sequence = (.ok (), r₁) := by
          rcases hcase with ⟨r₁, hadd, _⟩ | ⟨_, _, _, _, _, hadd⟩
          · exact ⟨r₁, hadd⟩
          · exact ⟨_, hadd⟩
        rcases hok with ⟨r₁, hadd⟩
        rcases ih (hr.of_add hwindow hadd) with ⟨done, hprefix, hdone, hall⟩
        rw [List.append_assoc] at hdone
        simp only [Recovery.addAll, hadd]
        refine ⟨⟨b, sequence⟩ :: done, List.cons_prefix_cons.mpr ⟨rfl, hprefix⟩, hdone, fun h => ?_⟩
        rw [hall h]
        rfl

/-- The same for the revokes of a descriptor, if it can be read. -/
theorem Merged.of_scanBlock (hr : r.Merged base seen) (logBlock : BlockNumber) (data : Bytes)
    (hwindow : ∀ p, RevokeBlock.parse data r.width = .ok p →
      p.sequence.stepsFrom base < Tid.halfCircle) :
    ∃ done, done <+: revokesIn r.width [(logBlock, data)] ∧
      (r.scanBlock logBlock data).2.Merged base (seen ++ done) ∧
      (∀ entries, (r.scanBlock logBlock data).1 = .ok entries →
        done = revokesIn r.width [(logBlock, data)]) := by
  cases hparse : RevokeBlock.parse data r.width with
  | error e =>
      refine ⟨[], List.nil_prefix, ?_, fun entries h => ?_⟩
      · simp only [Recovery.scanBlock, hparse, List.append_nil]
        exact hr.of_table_eq rfl
      · simp only [Recovery.scanBlock, hparse, reduceCtorEq] at h
  | ok p =>
      have hlisted : revokesIn r.width [(logBlock, data)] = p.records := by
        rw [revokesIn_cons_of_parse hparse, revokesIn, List.flatMap_nil, List.append_nil]
      rcases hr.of_addAll (hwindow p hparse) p.blocks with ⟨done, hprefix, hdone, hall⟩
      rw [hlisted]
      refine ⟨done, hprefix, ?_, fun entries h => hall ?_⟩
      all_goals rcases hadd : r.addAll p.sequence p.blocks with ⟨stop | ⟨⟩, r₁⟩
      · rw [hadd] at hdone
        simp only [Recovery.scanBlock, hparse, hadd]
        exact hdone
      · rw [hadd] at hdone
        simp only [Recovery.scanBlock, hparse, hadd]
        exact hdone.of_table_eq rfl
      · simp only [Recovery.scanBlock, hparse, hadd, reduceCtorEq] at h
      · rfl

/-- Whatever way it ends, a scan gathers a first part of what the log lists. -/
theorem Merged.of_scan (hr : r.Merged base seen) {blocks : List (BlockNumber × Bytes)}
    (hwindow : InWindow r.width base blocks) :
    ∃ done, done <+: revokesIn r.width blocks ∧ (r.scan blocks).2.Merged base (seen ++ done) ∧
      ((r.scan blocks).1 = .ok () → done = revokesIn r.width blocks) := by
  induction blocks generalizing r seen with
  | nil =>
      refine ⟨[], List.nil_prefix, ?_, fun _ => rfl⟩
      rw [List.append_nil]
      exact hr
  | cons block blocks ih =>
      have hrest : InWindow r.width base blocks := fun other hother =>
        hwindow other (List.mem_cons_of_mem block hother)
      cases hrevoke : isRevokeBlock block.2 with
      | false =>
          rw [revokesIn_cons_of_not_revoke hrevoke]
          simp only [Recovery.scan, hrevoke, Bool.false_eq_true, if_false]
          have hcounted : Merged { r with stats.otherBlocks := r.stats.otherBlocks + 1 } base seen :=
            hr.of_table_eq rfl
          exact ih hcounted hrest
      | true =>
          rcases hr.of_scanBlock block.1 block.2 (hwindow block List.mem_cons_self) with
            ⟨done, hprefix, hdone, hall⟩
          have hsplit : revokesIn r.width (block :: blocks) =
              revokesIn r.width [block] ++ revokesIn r.width blocks := by
            simp only [revokesIn, List.flatMap_cons, List.flatMap_nil, List.append_nil]
          have hwidth := width_scanBlock r block.1 block.2
          rw [hsplit]
          rcases hscan : r.scanBlock block.1 block.2 with ⟨stop | entries, r₁⟩
          · rw [hscan] at hdone
            simp only [Recovery.scan, hrevoke, if_true, hscan]
            refine ⟨done, hprefix.trans (List.prefix_append _ _), hdone, fun h => ?_⟩
            simp only [reduceCtorEq] at h
          · rw [hscan] at hdone hwidth hall
            rcases ih hdone (hwidth ▸ hrest) with ⟨more, hprefix', hmore, hall'⟩
            rw [List.append_assoc, hall entries rfl] at hmore
            rw [hwidth] at hprefix' hall'
            simp only [Recovery.scan, hrevoke, if_true, hscan]
            refine ⟨_, (List.prefix_append_right_inj _).mpr hprefix', hmore, fun h => ?_⟩
            rw [hall' h]

/-- A recovery that has gathered nothing yet. -/
def Fresh (width : RecordWidth) (r : Recovery) : Prop :=
  ∃ hashSize policy pool, create hashSize width policy pool = .ok r

/-- A recovery after scans of one log one after the other, however they end. Before each of
    them others may have changed the pool. -/
def rescans (r : Recovery) (blocks : List (BlockNumber × Bytes)) : List Pool → Recovery
  | [] => r
  | pool :: pools => ((r.withPool pool).scan blocks).2.rescans blocks pools

-- Scans of a log gather nothing that is not in it.
theorem Merged.rescans {blocks : List (BlockNumber × Bytes)} (pools : List Pool)
    (hr : r.Merged base seen) (hseen : seen ⊆ revokesIn r.width blocks)
    (hwindow : InWindow r.width base blocks) :
    (r.rescans blocks pools).width = r.width ∧
      ∃ seen' ⊆ revokesIn r.width blocks, (r.rescans blocks pools).Merged base seen' := by
  induction pools generalizing r seen with
  | nil => exact ⟨rfl, seen, hseen, hr⟩
  | cons pool pools ih =>
      have hpool : (r.withPool pool).Merged base seen := hr.of_table_eq rfl
      have hwidth := width_scan (r.withPool pool) blocks
      rcases hpool.of_scan hwindow with ⟨done, hprefix, hdone, _⟩
      have hmore : seen ++ done ⊆ revokesIn r.width blocks :=
        List.append_subset.mpr ⟨hseen, hprefix.subset⟩
      change _ = r.width at hwidth
      rw [← hwidth] at hmore hwindow ⊢
      exact ih hdone hmore hwindow

-- A scan that goes through, after others that may not have, gathers what is in the log.
theorem Fresh.rescans {width : RecordWidth} (hr : r.Fresh width)
    {blocks : List (BlockNumber × Bytes)} (hwindow : InWindow width base blocks)
    (pools : List Pool) (pool : Pool)
    (hscan : (((r.rescans blocks pools).withPool pool).scan blocks).1 = .ok ()) :
    (((r.rescans blocks pools).withPool pool).scan blocks).2.Merged base
      (revokesIn width blocks) := by
  rcases hr with ⟨hashSize, policy, pool₀, hcreate⟩
  rcases merged_create hcreate base with ⟨hmerged, _, _, rfl, _⟩
  rcases hmerged.rescans pools (List.nil_subset _) hwindow with ⟨hwidth, seen, hseen, hr⟩
  have hpool : ((r.rescans blocks pools).withPool pool).Merged base seen := hr.of_table_eq rfl
  rw [← hwidth] at hwindow
  rcases hpool.of_scan hwindow with ⟨done, _, hdone, hall⟩
  have hlisted := hall hscan
  change done = revokesIn (r.rescans blocks pools).width blocks at hlisted
  rw [hlisted, hwidth] at hdone
  refine hdone.congr fun rec => ?_
  rw [List.mem_append]
  exact ⟨fun h => h.elim (fun h => hseen h) id, Or.inr⟩

/-- How a scan of a log fails, and what a scan that goes through comes to after others that
    failed.

    A descriptor that cannot be read is reported by where in the log it is. If memory runs out
    inside a descriptor then a first part of its entries is in the table. Either way nothing
    else is left of the block, and all of the blocks before it. A recovery that starts with
    nothing and in the end gets through a log whose transactions lie in a window knows of each
    block the latest transaction that revoked it, as one does that got through at once. -/
theorem scan_failure_and_rescan (blocks : List (BlockNumber × Bytes)) :
    (∀ (r : Recovery) before bad after e, blocks = before ++ bad :: after →
      (r.scan before).1 = .ok () → isRevokeBlock bad.2 = true →
      RevokeBlock.parse bad.2 r.width = .error e →
        r.Rejected before bad.1 e (r.scan blocks)) ∧
    (∀ (r : Recovery) e, (r.scan blocks).1 = .error (.failed e) → e.category = .outOfMemory →
      ∃ before block after p done b rest, blocks = before ++ block :: after ∧
        p.blocks = done ++ b :: rest ∧ r.CutShort before block.2 p done (r.scan blocks).2) ∧
    (∀ (width : RecordWidth) (base : Tid), InWindow width base blocks →
      ∀ r : Recovery, r.Fresh width → ∀ (pools : List Pool) (pool : Pool) (r' : Recovery),
        ((r.rescans blocks pools).withPool pool).scan blocks = (.ok (), r') →
        (∀ b tid, r'.revokedIn b = some tid ↔ LatestIn width blocks b tid) ∧
        ∀ other other' : Recovery, other.Fresh width → other.scan blocks = (.ok (), other') →
          ∀ b, r'.revokedIn b = other'.revokedIn b) := by
  refine ⟨?_, ?_, ?_⟩
  · rintro r before bad after e rfl hbefore hrevoke hparse
    exact rejected_of_parse hbefore hrevoke hparse
  · intro r e he hmemory
    refine cutShort_of_scan (Prod.ext he rfl) fun logBlock cause heq => ?_
    rw [Stop.failed.injEq] at heq
    rw [heq, Error.category] at hmemory
    exact absurd hmemory (by simp only [reduceCtorEq, not_false_eq_true])
  · intro width base hwindow r hr pools pool r' hscan
    -- The latest transaction does not depend on how the table came about.
    have hknown : ∀ {known : Recovery}, known.Merged base (revokesIn width blocks) →
        ∀ b tid, known.revokedIn b = some tid ↔ LatestIn width blocks b tid := by
      intro known hknown b tid
      rw [hknown.revokedIn_iff]
      exact ⟨fun h => ⟨h.1, h.2⟩, fun h => ⟨h.listed, h.latest⟩⟩
    have hmerged := hr.rescans hwindow pools pool (by rw [hscan])
    rw [hscan] at hmerged
    refine ⟨hknown hmerged, fun other other' hother hscan' b => ?_⟩
    have hmerged' := hother.rescans hwindow [] other.pool (congrArg Prod.fst hscan')
    change (other.scan blocks).2.Merged base _ at hmerged'
    rw [hscan'] at hmerged'
    exact Option.ext fun tid => (hknown hmerged b tid).trans (hknown hmerged' b tid).symm

/-- A descriptor that says that it ends inside its header. -/
def spoiledLog : List (BlockNumber × Bytes) :=
  [(⟨30⟩, (RevokeBlock.mk ⟨1⟩ [⟨7⟩]).image .narrow),
    (⟨31⟩, (openRevoke (Bytes.zeros 16) ⟨2⟩).2)]

-- Scans of a log across the wrap of the ids, with room for two records. As long as somebody
-- else has one of them the recovery stops after the first entry of the first descriptor, and
-- once that is given back it gets through. The second block of the other log cannot be read.
theorem scan_failure_and_rescan_wrappedLog :
    ∃ r r', create 2 .narrow .fail ⟨some 2, 1, 1, 0, false⟩ = .ok r ∧
      (r.scan wrappedLog).1 = .error (.failed (.poolExhausted 2)) ∧
      (∃ before block after p done b rest, wrappedLog = before ++ block :: after ∧
        p.blocks = done ++ b :: rest ∧ r.CutShort before block.2 p done (r.scan wrappedLog).2) ∧
      ((r.rescans wrappedLog [⟨some 2, 1, 1, 0, false⟩]).withPool
        ⟨some 2, 1, 2, 1, false⟩).scan wrappedLog = (.ok (), r') ∧
      r'.revokedIn ⟨7⟩ = some ⟨1⟩ ∧
      r.Rejected (spoiledLog.take 1) ⟨31⟩ .countBelowHeader (r.scan spoiledLog) := by
  have hwindow : InWindow .narrow ⟨4294967295⟩ wrappedLog := by
    refine InWindow.of_readable (List.forall_mem_cons.mpr ⟨Or.inr ⟨⟨⟨4294967295⟩, [⟨5⟩, ⟨7⟩, ⟨7⟩]⟩,
      ?_, ?_⟩, List.forall_mem_cons.mpr ⟨Or.inl ?_, List.forall_mem_singleton.mpr
        (Or.inr ⟨⟨⟨1⟩, [⟨7⟩]⟩, ?_, ?_⟩)⟩⟩)
    all_goals decide +kernel
  let pool : Pool := ⟨some 2, 1, 1, 0, false⟩
  let pool' : Pool := ⟨some 2, 1, 2, 1, false⟩
  let r : Recovery := ⟨⟨1, #[[], []], 0⟩, pool, .narrow, .fail, {}, #[.recoveryStarted 2 .narrow]⟩
  have hcreate : create 2 .narrow .fail pool = .ok r := by decide +kernel
  have hstop : (r.scan wrappedLog).1 = .error (.failed (.poolExhausted 2)) := by decide +kernel
  have hdone : (((r.rescans wrappedLog [pool]).withPool pool').scan wrappedLog).1 = .ok () := by
    decide +kernel
  rcases hscan : ((r.rescans wrappedLog [pool]).withPool pool').scan wrappedLog with ⟨answer, r'⟩
  rw [hscan] at hdone
  change answer = _ at hdone
  rw [hdone] at hscan
  rcases scan_failure_and_rescan wrappedLog with ⟨_, hcut, hrescan⟩
  rcases hrescan .narrow ⟨4294967295⟩ hwindow r ⟨2, .fail, pool, hcreate⟩ [pool] pool' r' hscan
    with ⟨hknown, _⟩
  refine ⟨r, r', hcreate, hstop, hcut r _ hstop rfl, hscan, ?_, ?_⟩
  · exact (hknown _ _).mpr ⟨by decide +kernel, by decide +kernel⟩
  · exact (scan_failure_and_rescan spoiledLog).1 r _ (⟨31⟩, _) [] .countBelowHeader rfl
      (by decide +kernel) (by decide +kernel) (by decide +kernel)

end Recovery

end BlockJournal
