import BlockJournal.Proofs.Mount.Steady
import BlockJournal.Proofs.Ring.Chronicle

/-!
# Waiting

What a wait takes away, and what it leaves.

A wait goes through the descriptors of its transaction. Each one that is on its way to
the log is taken for written, unless its block is among those whose writes failed, and
then the block is taken off these. As long as no two descriptors have the same block
this comes to what was known of them before the wait began: no descriptor is taken for
another, and those of other transactions keep what is known of them.

## Main definitions

* `RingLog.sendings`: What is known of some descriptors.
* `Collected.Settled`: What waiting for some descriptors comes to.

## Theorems

* `settled_foldl`: Waiting for descriptors on different blocks.
* `settled_wait`: Waiting for a transaction.
* `Settled.sendings_eq`: What is known of the other descriptors.
-/

namespace BlockJournal

namespace RingLog

/-- What is known of a descriptor, if it is on its way to the log. -/
def sending? (store : Store) (failed : List BlockNumber) (id : BufferId) : Option Sending :=
  if (store.get id).flags.logWrite then
    some ⟨id, (store.get id).block, decide ((store.get id).block ∉ failed)⟩
  else none

/-- What is known of those of some descriptors that are on their way to the log. -/
def sendings (store : Store) (failed : List BlockNumber) (ids : List BufferId) : List Sending :=
  ids.filterMap (sending? store failed)

variable {store store' : Store} {failed failed' : List BlockNumber} {id : BufferId}
  {ids : List BufferId}

-- The descriptors of a transaction have blocks of their own if all descriptors have.
theorem nodup_batch {log : RingLog}
    (h : (log.pending.map fun entry => (store.get entry.2).block).Nodup) (tid : Tid) :
    ((log.batch tid).map fun id => (store.get id).block).Nodup := by
  rw [batch, List.map_map]
  exact (List.filter_sublist.map _).nodup h

theorem sending?_of_sent (h : Sent store id) :
    sending? store failed id =
      some ⟨id, (store.get id).block, decide ((store.get id).block ∉ failed)⟩ :=
  if_pos h

theorem sending?_of_unsent (h : ¬ Sent store id) : sending? store failed id = none := if_neg h

-- A descriptor that is on its way adds what is known of it, and another one adds nothing.
theorem sendings_concat_of_sent (h : Sent store id) :
    sendings store failed (ids ++ [id]) = sendings store failed ids ++
      [⟨id, (store.get id).block, decide ((store.get id).block ∉ failed)⟩] := by
  rw [sendings, List.filterMap_append, List.filterMap_cons_some (sending?_of_sent h),
    List.filterMap_nil, sendings]

theorem sendings_concat_of_unsent (h : ¬ Sent store id) :
    sendings store failed (ids ++ [id]) = sendings store failed ids := by
  rw [sendings, List.filterMap_append, List.filterMap_cons_none (sending?_of_unsent h),
    List.filterMap_nil, List.append_nil, sendings]

theorem mem_sendings {d : Sending} :
    d ∈ sendings store failed ids ↔
      d.id ∈ ids ∧ Sent store d.id ∧ d.block = (store.get d.id).block ∧
        (d.reached = true ↔ d.block ∉ failed) := by
  simp only [sendings, List.mem_filterMap, sending?, Option.ite_none_right_eq_some,
    Option.some.injEq]
  constructor
  · rintro ⟨id, hid, hsent, rfl⟩
    exact ⟨hid, hsent, rfl, decide_eq_true_iff⟩
  · rcases d with ⟨id, block, reached⟩
    rintro ⟨hid, hsent, hblock, hreached⟩
    refine ⟨id, hid, hsent, ?_⟩
    change block = (store.get id).block at hblock
    rw [← hblock, Sending.mk.injEq]
    exact ⟨rfl, rfl, Bool.eq_iff_iff.mpr (decide_eq_true_iff.trans hreached.symm)⟩

/-- What is known of a descriptor depends on its buffer and on whether its block is
    among those whose writes failed. -/
theorem sending?_congr (hsent : Sent store' id ↔ Sent store id)
    (hblock : (store'.get id).block = (store.get id).block)
    (hfailed : (store.get id).block ∈ failed' ↔ (store.get id).block ∈ failed) :
    sending? store' failed' id = sending? store failed id := by
  by_cases h : Sent store id
  · rw [sending?_of_sent h, sending?_of_sent (hsent.mpr h), hblock]
    simp only [hfailed]
  · rw [sending?_of_unsent h, sending?_of_unsent fun h' => h (hsent.mp h')]

namespace Collected

/-- What waiting for the descriptors `ids` comes to. -/
structure Settled (c : Collected) (ids : List BufferId) (c' : Collected) : Prop where
  -- The descriptors that were sent were written, or were lost.
  written_eq : c'.written =
    c.written ++ ((sendings c.store c.failed ids).filter (·.reached)).map Sending.block
  lost_eq : c'.lost =
    c.lost ++ ((sendings c.store c.failed ids).filter (! ·.reached)).map Sending.block
  -- Their blocks are not among those that failed any more. The others are.
  nodup : c'.failed.Nodup
  failed_iff : ∀ b, b ∈ c'.failed ↔
    b ∈ c.failed ∧ ∀ d ∈ sendings c.store c.failed ids, d.block ≠ b
  -- They are on their way no more. The others are as they were.
  size_eq : c'.store.buffers.size = c.store.buffers.size
  get_eq : ∀ id, id ∉ ids → c'.store.get id = c.store.get id
  block_eq : ∀ id, (c'.store.get id).block = (c.store.get id).block
  sent_iff : ∀ id, Sent c'.store id ↔ Sent c.store id ∧ id ∉ ids

variable {c c' : Collected}

theorem Settled.refl (h : c.failed.Nodup) : c.Settled [] c := by
  refine ⟨(List.append_nil _).symm, (List.append_nil _).symm, h, fun b => ?_, rfl,
    fun _ _ => rfl, fun _ => rfl, fun id => ?_⟩
  · exact ⟨fun hb => ⟨hb, fun d hd => absurd hd List.not_mem_nil⟩, And.left⟩
  · exact ⟨fun hsent => ⟨hsent, List.not_mem_nil⟩, And.left⟩

/-- What is known of other descriptors on other blocks is still known. -/
theorem Settled.sending?_eq (h : c.Settled ids c') (hid : id ∉ ids)
    (hblock : ∀ other ∈ ids, (c.store.get other).block ≠ (c.store.get id).block) :
    sending? c'.store c'.failed id = sending? c.store c.failed id := by
  refine sending?_congr ?_ (h.block_eq id) ?_
  · rw [h.sent_iff]
    exact ⟨And.left, fun hsent => ⟨hsent, hid⟩⟩
  · rw [h.failed_iff]
    refine ⟨And.left, fun hb => ⟨hb, fun d hd heq => ?_⟩⟩
    rcases mem_sendings.mp hd with ⟨hmem, _, hd', _⟩
    exact hblock d.id hmem (hd'.symm.trans heq)

-- What becomes of the buffers when the mark of a write is taken away from one more.
theorem Settled.store_setLogWrite (h : c.Settled ids c') (id : BufferId) {s : Store}
    (hs : s = c'.store.modify id (·.setLogWrite false)) :
    s.buffers.size = c.store.buffers.size ∧
    (∀ other, other ∉ ids ++ [id] → s.get other = c.store.get other) ∧
    (∀ other, (s.get other).block = (c.store.get other).block) ∧
    ∀ other, Sent s other ↔ Sent c.store other ∧ other ∉ ids ++ [id] := by
  have hmarks := remarked_setLogWrite c'.store id
  subst hs
  refine ⟨hmarks.size_eq.trans h.size_eq, fun other hother => ?_,
    fun other => (hmarks.block_eq other).trans (h.block_eq other), fun other => ?_⟩
  · rw [List.mem_append, List.mem_singleton, not_or] at hother
    rw [Store.get_modify, if_neg fun ho => hother.2 ho.1.symm, h.get_eq other hother.1]
  · rw [sent_setLogWrite, h.sent_iff, List.mem_append, List.mem_singleton, not_or, and_assoc,
      ne_comm]

/-- One descriptor more, on a block of its own. -/
theorem Settled.snoc (h : c.Settled ids c') (hid : id ∉ ids)
    (hblock : ∀ other ∈ ids, (c.store.get other).block ≠ (c.store.get id).block) :
    c.Settled (ids ++ [id]) (c'.add id) := by
  let b := (c.store.get id).block
  let new : Sending := ⟨id, b, decide (b ∉ c.failed)⟩
  have hb : (c'.store.get id).block = b := h.block_eq id
  -- What was done before has nothing to do with this descriptor and its block.
  have hothers : ∀ d ∈ sendings c.store c.failed ids, d.block ≠ b := by
    intro d hd
    rcases mem_sendings.mp hd with ⟨hmem, _, hd', _⟩
    rw [hd']
    exact hblock d.id hmem
  have hfailed : b ∈ c'.failed ↔ b ∈ c.failed := by
    rw [h.failed_iff]
    exact ⟨And.left, fun hb => ⟨hb, hothers⟩⟩
  have hsent : Sent c'.store id ↔ Sent c.store id := by
    rw [h.sent_iff]
    exact ⟨And.left, fun hs => ⟨hs, hid⟩⟩
  have hnew : Sent c'.store id →
      sendings c.store c.failed (ids ++ [id]) = sendings c.store c.failed ids ++ [new] :=
    fun hs => sendings_concat_of_sent (hsent.mp hs)
  rcases c'.add_cases id with ⟨hunsent, heq⟩ | ⟨hs, hlost, heq⟩ | ⟨hs, hwritten, heq⟩
  · have hsame : sendings c.store c.failed (ids ++ [id]) = sendings c.store c.failed ids :=
      sendings_concat_of_unsent fun hs => hunsent (hsent.mpr hs)
    rw [heq]
    refine ⟨hsame ▸ h.written_eq, hsame ▸ h.lost_eq, h.nodup, hsame ▸ h.failed_iff, h.size_eq,
      fun other hother => h.get_eq other fun hmem => hother (List.mem_append_left _ hmem),
      h.block_eq, fun other => ?_⟩
    rw [h.sent_iff, List.mem_append, List.mem_singleton, not_or]
    refine ⟨fun ho => ⟨ho.1, ho.2, ?_⟩, fun ho => ⟨ho.1, ho.2.1⟩⟩
    rintro rfl
    exact hunsent (hsent.mpr ho.1)
  · rw [hb] at hlost heq
    have hreached : new.reached = false := decide_eq_false fun hno => hno (hfailed.mp hlost)
    rcases h.store_setLogWrite id rfl with ⟨hsize, hget, hblocks, hsents⟩
    rw [heq]
    refine ⟨?_, ?_, h.nodup.erase _, fun b' => ?_, hsize, hget, hblocks, hsents⟩
    · rw [hnew hs, List.filter_append, List.filter_cons_of_neg (by rw [hreached]; exact
        Bool.false_ne_true), List.filter_nil, List.append_nil]
      exact h.written_eq
    · rw [hnew hs, List.filter_append, List.filter_cons_of_pos (by rw [hreached]; rfl),
        List.filter_nil, List.map_append, ← List.append_assoc, ← h.lost_eq]
      rfl
    · rw [hnew hs, List.forall_mem_append, List.forall_mem_singleton]
      change b' ∈ c'.failed.erase b ↔ _
      rw [h.nodup.mem_erase_iff, h.failed_iff, and_comm, and_assoc, ne_comm]
  · rw [hb] at hwritten heq
    have hreached : new.reached = true := decide_eq_true fun hno => hwritten (hfailed.mpr hno)
    rcases h.store_setLogWrite id rfl with ⟨hsize, hget, hblocks, hsents⟩
    rw [heq]
    refine ⟨?_, ?_, h.nodup, fun b' => ?_, hsize, hget, hblocks, hsents⟩
    · rw [hnew hs, List.filter_append, List.filter_cons_of_pos hreached, List.filter_nil,
        List.map_append, ← List.append_assoc, ← h.written_eq]
      rfl
    · rw [hnew hs, List.filter_append, List.filter_cons_of_neg (by rw [hreached]; exact
        Bool.false_ne_true), List.filter_nil, List.append_nil]
      exact h.lost_eq
    · rw [hnew hs, List.forall_mem_append, List.forall_mem_singleton]
      change b' ∈ c'.failed ↔ _
      rw [h.failed_iff]
      refine ⟨fun hb' => ⟨hb'.1, hb'.2, ?_⟩, fun hb' => ⟨hb'.1, hb'.2.1⟩⟩
      rintro rfl
      exact hwritten (hfailed.mpr hb'.1)

/-- Waiting for descriptors on different blocks comes to what is known of them. -/
theorem settled_foldl (hblocks : (ids.map fun id => (c.store.get id).block).Nodup)
    (hfailed : c.failed.Nodup) : c.Settled ids (ids.foldl add c) := by
  induction ids using List.reverseRecOn with
  | nil => exact .refl hfailed
  | append_singleton ids id ih =>
      rw [List.map_append, List.nodup_append] at hblocks
      rw [List.foldl_append]
      have hne : ∀ other ∈ ids, (c.store.get other).block ≠ (c.store.get id).block :=
        fun other hother => hblocks.2.2 _ (List.mem_map_of_mem hother) _ List.mem_cons_self
      exact (ih hblocks.1).snoc (fun hid => hne id hid rfl) hne

-- Nothing was found out before a wait, so what comes of it is the report.
theorem Settled.result_eq (h : Settled ⟨store, failed, [], []⟩ ids c') :
    c'.result = report (sendings store failed ids) := by
  have hwritten := h.written_eq
  have hlost := h.lost_eq
  rw [List.nil_append] at hwritten hlost
  rw [result, report, hwritten, hlost]
  by_cases hall : ∀ d ∈ sendings store failed ids, d.reached = true
  · rw [if_pos hall, List.filter_eq_self.mpr hall, List.filter_eq_nil_iff.mpr fun d hd => by
      rw [hall d hd]; exact Bool.false_ne_true]
    rfl
  · rw [if_neg hall, if_neg]
    intro hnone
    rw [List.isEmpty_iff, List.map_eq_nil_iff, List.filter_eq_nil_iff] at hnone
    refine hall fun d hd => ?_
    simpa only [Bool.not_eq_true', Bool.not_eq_false] using hnone d hd

end Collected

end RingLog

namespace Mount

open RingLog

/-- A wait reports what is known of the descriptors of its transaction, and comes to
    that. -/
theorem settled_wait {m : Mount RingLog} (tid : Tid)
    (hblocks : (m.log.pending.map fun entry => (m.store.get entry.2).block).Nodup)
    (hfailed : m.log.failed.Nodup) :
    ∃ c, Collected.Settled ⟨m.store, m.log.failed, [], []⟩ (m.log.batch tid) c ∧
      (m.wait tid).1 = report (sendings m.store m.log.failed (m.log.batch tid)) ∧
      (m.wait tid).2.store = c.store ∧
      (m.wait tid).2.log =
        { m.log with
          pending := m.log.pending.filter (fun entry => entry.1 ≠ tid)
          failed := c.failed } := by
  have hsettled := @Collected.settled_foldl (m.log.batch tid) ⟨m.store, m.log.failed, [], []⟩
    (nodup_batch hblocks tid) hfailed
  exact ⟨_, hsettled, hsettled.result_eq, rfl, rfl⟩

end Mount

end BlockJournal
