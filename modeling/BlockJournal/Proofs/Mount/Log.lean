import BlockJournal.Proofs.Calls
import BlockJournal.Proofs.Mount.Surroundings

/-!
# The Log of a Mount

What calls do to the log, which the core leaves out.

Only four operations reach the log, and each leaves it in the state of its reply.
Of these a call that is no commit makes one at most: a revoke that was handed a
buffer takes it off the lists of the transaction. So between two commits the log
changes by such calls alone, and what they keep of a log is kept until the next
commit.

## Theorems

* `log_absorb`, `log_request`, `log_file`, `log_submit`: Calls to the log.
* `surroundings_after`: Every call but revokes and commits stays inside the core.
* `log_after`: Every call but a commit.
-/

namespace BlockJournal

namespace Mount

variable {σ : Type}

theorem log_of_surroundings {m : Mount σ} {s : Surroundings σ} (h : m.surroundings = s) :
    m.log = s.log :=
  congrArg Surroundings.log h

@[simp] theorem log_abort (m : Mount σ) : m.abort.log = m.log :=
  log_of_surroundings m.surroundings_abort

@[simp] theorem log_absorb {α : Type} (m : Mount σ) (reply : Reply σ α) :
    (m.absorb reply).log = reply.next :=
  log_of_surroundings (m.surroundings_absorb reply)

variable [LogService σ]

theorem log_request (m : Mount σ) : m.request.2.log = (LogService.request m.log).next :=
  log_of_surroundings m.surroundings_request

theorem log_file (m : Mount σ) (tid : Tid) (id : BufferId) :
    (m.file tid id).log = (LogService.file m.log tid id (m.store.get id)).next :=
  log_of_surroundings (m.surroundings_file tid id)

theorem log_submit (m : Mount σ) (id : BufferId) :
    (m.submit id).log = (LogService.submit m.log id (m.store.get id)).next :=
  log_of_surroundings (m.surroundings_submit id)

/-- Revokes and commits apart, calls stay inside the core. -/
theorem surroundings_after (m : Mount σ) {c : Call}
    (hrevoke : ∀ tid block given, c ≠ .revoke tid block given)
    (hcommit : ∀ tid, c ≠ .commit tid) : (m.after c).surroundings = m.surroundings := by
  cases c with
  | getOrCreate block =>
      simp only [after, getOrCreate]
      split
      · rfl
      · rfl
  | read device block contended =>
      simp only [after, readBuffer]
      split
      · rfl
      · rfl
  | evict block =>
      simp only [after, evict]
      split
      · rfl
      · rfl
  | detach block size => rfl
  | revoke tid block given => exact absurd rfl (hrevoke tid block given)
  | cancel tid id => exact m.surroundings_cancel tid id
  | commit tid => exact absurd rfl (hcommit tid)

/-- A log in which a buffer may have been taken off the lists of a transaction. -/
def Forgotten (log log' : σ) : Prop :=
  log' = log ∨ ∃ tid b, log' = (LogService.forget log tid b).next

/-- Between commits nothing reaches the log but buffers taken off its lists. -/
theorem log_after (m : Mount σ) {c : Call} (hc : ∀ tid, c ≠ .commit tid) :
    Forgotten m.log (m.after c).log := by
  by_cases hrevoke : ∃ tid block given, c = .revoke tid block given
  · rcases hrevoke with ⟨tid, block, given, rfl⟩
    have hlog := m.surroundings.log_featured m.journal.config.neededFeatures
    rcases (m.surroundings_revoke tid block given).1 with hsame | ⟨tid', b, hforget⟩
    · exact Or.inl ((log_of_surroundings hsame).trans hlog)
    · refine Or.inr ⟨tid', b, (log_of_surroundings hforget).trans ?_⟩
      rw [hlog]
      rfl
  · exact Or.inl (log_of_surroundings (m.surroundings_after
      (fun tid block given h => hrevoke ⟨tid, block, given, h⟩) hc))

end Mount

end BlockJournal
