import BlockJournal.Proofs.Mount.Log
import BlockJournal.Proofs.RingLog

/-!
# What Calls Leave of a Buffer

Between two commits no buffer is moved or sent.

Calls change the marks of buffers, take them in and out of the cache, and add new ones.
None of this has to do with where a buffer belongs, or with whether it is on its way to
the log. `Store.Steady` says that neither has changed for any buffer that was there, so
whatever is known about the descriptors of a log outlasts all calls but commits.

## Main definitions

* `Store.Steady`: The buffers that were there are where they were, and sent if they were.

## Theorems

* `Grows.steady`, `steady_modify`, `steady_evict`: What changes a store.
* `steady_revoke`, `steady_cancel`: What a journal does between commits.
* `steady_after`: Every call but a commit.
-/

namespace BlockJournal

open RingLog (Sent)

namespace Store

/-- A store in which the buffers that were there have the same blocks, and are on their
    way to the log if they were before. -/
structure Steady (s s' : Store) : Prop where
  -- No buffer is gone.
  size_le : s.buffers.size ≤ s'.buffers.size
  -- The block of each buffer.
  block_eq : ∀ id, id < s.buffers.size → (s'.get id).block = (s.get id).block
  -- Whether it is on its way to the log.
  sent_iff : ∀ id, id < s.buffers.size → (Sent s' id ↔ Sent s id)

variable {s s' s'' : Store}

theorem Steady.refl (s : Store) : s.Steady s :=
  ⟨Nat.le_refl _, fun _ _ => rfl, fun _ _ => Iff.rfl⟩

theorem Steady.of_eq (h : s' = s) : s.Steady s' := h ▸ .refl s

theorem Steady.trans (h : s.Steady s') (h' : s'.Steady s'') : s.Steady s'' := by
  refine ⟨Nat.le_trans h.size_le h'.size_le, fun id hid => ?_, fun id hid => ?_⟩
  · exact (h'.block_eq id (Nat.lt_of_lt_of_le hid h.size_le)).trans (h.block_eq id hid)
  · exact (h'.sent_iff id (Nat.lt_of_lt_of_le hid h.size_le)).trans (h.sent_iff id hid)

-- New buffers do nothing to the ones there were.
theorem Grows.steady (h : s.Grows s') : s.Steady s' := by
  refine ⟨h.size_le, fun id hid => congrArg Buffer.block (h.get_eq id hid), fun id hid => ?_⟩
  rw [Sent, Sent, h.get_eq id hid]

-- Neither does a change of anything else.
theorem steady_modify (s : Store) (id : BufferId) {f : Buffer → Buffer}
    (hblock : ∀ b, (f b).block = b.block) (hsent : ∀ b, (f b).flags.logWrite = b.flags.logWrite) :
    s.Steady (s.modify id f) := by
  refine ⟨Nat.le_of_eq (size_modify s id f).symm, fun other _ => ?_, fun other _ => ?_⟩
  · rw [get_modify]
    split
    · exact hblock _
    · rfl
  · rw [Sent, Sent, get_modify]
    split
    · rw [hsent]
    · exact Iff.rfl

theorem steady_evict (s : Store) (block : BlockNumber) : s.Steady (s.evict block).2 := by
  refine ⟨Nat.le_of_eq (size_evict s block).symm, fun id _ => ?_, fun id _ => ?_⟩
  · rcases get_evict s block id with h | ⟨_, h⟩
    · rw [h]
    · rw [h]
      rfl
  · rcases get_evict s block id with h | ⟨_, h⟩
    · rw [Sent, Sent, h]
    · rw [Sent, Sent, h]
      rfl

end Store

namespace Mount

variable {σ : Type}

/-- A cancel moves and sends nothing. -/
theorem steady_cancel (m : Mount σ) (tid : Tid) (id : BufferId) :
    m.store.Steady (m.cancel tid id).2.store := by
  have hmark : m.store.Steady (m.store.modify id Buffer.markClean) :=
    Store.steady_modify _ _ (fun _ => rfl) (fun _ => rfl)
  rcases store_cancel m tid id with h | ⟨other, h⟩
  · rw [h]
    exact hmark
  · rw [h]
    exact hmark.trans (Store.steady_modify _ _ (fun _ => rfl) (fun _ => rfl))

variable [LogService σ]

-- What a revoke does to its buffer.
theorem steady_letGo (m : Mount σ) (tid : Tid) (held : Held) :
    m.store.Steady (m.letGo tid held).store := by
  cases held with
  | given id =>
      have habsorb : m.store.Steady
          (m.absorb (LogService.forget m.log tid (m.store.get id))).store :=
        .of_eq (store_absorb m _)
      simp only [letGo, forget]
      split
      · exact habsorb.trans (Store.steady_modify _ _ (fun _ => rfl) (fun _ => rfl))
      · exact habsorb
  | found id => exact .refl _
  | nothing => exact .refl _

omit [LogService σ] in
theorem steady_markRevoked (m : Mount σ) (held : Held) :
    m.store.Steady (m.markRevoked held).store := by
  unfold markRevoked
  split
  · exact Store.steady_modify _ _ (fun _ => rfl) (fun _ => rfl)
  · exact .refl _

theorem steady_proceed (m : Mount σ) (tid : Tid) (block : BlockNumber) (held : Held) :
    m.store.Steady (m.proceed tid block held).2.store := by
  have hrecord : m.store.Steady (m.record tid block).2.store := .refl _
  unfold proceed
  rcases hr : m.record tid block with ⟨_ | e | refreshed, m'⟩
  · rw [hr] at hrecord
    exact hrecord
  · rw [hr] at hrecord
    exact hrecord
  · rw [hr] at hrecord
    simp only [store_emit, store_countRevoke]
    exact (hrecord.trans (steady_markRevoked m' held)).trans (steady_letGo _ tid held)

/-- A revoke moves and sends nothing. -/
theorem steady_revoke (m : Mount σ) (tid : Tid) (block : BlockNumber) (given : Option BufferId) :
    m.store.Steady (m.revoke tid block given).2.store := by
  have hready : m.store.Steady (m.prepare block given).2.store :=
    .of_eq (store_of_core (core_prepare m block given))
  rw [revoke_eq]
  rcases hp : m.prepare block given with ⟨stop | ⟨⟩, m₁⟩
  · rw [hp] at hready
    exact hready
  · rw [hp] at hready
    have hcheck : m₁.store.Steady
        (m₁.check .revokedTwice (!m₁.isRevoked (m₁.hold block given))).2.store :=
      .of_eq (store_of_core (core_check m₁ _ _))
    simp only []
    rcases hc : m₁.check .revokedTwice (!m₁.isRevoked (m₁.hold block given)) with
      ⟨stop | twice, m₂⟩
    · rw [hc] at hcheck
      exact hready.trans hcheck
    · rw [hc] at hcheck
      cases twice with
      | false => exact (hready.trans hcheck).trans (steady_letGo m₂ tid _)
      | true => exact (hready.trans hcheck).trans (steady_proceed m₂ tid block _)

/-- Between commits no buffer that was there is moved or sent. -/
theorem steady_after (m : Mount σ) {c : Call} (hc : ∀ tid, c ≠ .commit tid) :
    m.store.Steady (m.after c).store := by
  cases c with
  | getOrCreate block => exact (m.grows_after (c := .getOrCreate block) rfl).2.1.steady
  | read device block contended =>
      exact (m.grows_after (c := .read device block contended) rfl).2.1.steady
  | detach block size => exact (m.grows_after (c := .detach block size) rfl).2.1.steady
  | evict block =>
      rw [store_evict]
      exact Store.steady_evict _ block
  | revoke tid block given => exact m.steady_revoke tid block given
  | cancel tid id => exact m.steady_cancel tid id
  | commit tid => exact absurd rfl (hc tid)

end Mount

end BlockJournal
