import BlockJournal.Event
import BlockJournal.Store

/-!
# Log Services

What a journal asks of its log.

A journal hands buffers to its log at four points: when a buffer is taken off a
transaction's lists, when a descriptor is needed, when it is filed under its
transaction, and when it is written. A log service answers each call with a
`Reply`: its own next state, what it reports, and whether it aborts the journal
from inside the call. It may also ask for changes to the buffer in question,
and these are part of the answer. A reply says everything that a log can do to
a journal, so what holds for every service holds for every log.

A service hands out descriptors by block and size. The buffer itself is added
to the store by the journal, so a descriptor is always a new buffer full of
zeros.

## Main definitions

* `Reply`: The answer to a call.
* `LogService`: The calls.
-/

namespace BlockJournal

/-- The answer of a log to a call. -/
structure Reply (σ α : Type) where
  /-- The answer itself. -/
  value : α
  /-- The log after the call. -/
  next : σ
  /-- Whether the log aborts the journal. -/
  abort : Bool
  /-- What the log reports. -/
  events : List Event

/-- The calls a journal makes to its log. -/
class LogService (σ : Type) where
  /-- A buffer is taken off the lists of a transaction. The answer is whether its
      dirty mark is to be cleared. -/
  forget : σ → Tid → Buffer → Reply σ Bool
  /-- A descriptor is needed. The answer is its block and its size, or `none` if the
      log has no room. -/
  request : σ → Reply σ (Option (BlockNumber × Nat))
  /-- A descriptor is filed under a transaction. The answer is the length that its
      contents are to be cut to, if they are. -/
  file : σ → Tid → BufferId → Buffer → Reply σ (Option Nat)
  /-- A buffer is to be written to its block. -/
  submit : σ → BufferId → Buffer → Reply σ Unit

end BlockJournal
