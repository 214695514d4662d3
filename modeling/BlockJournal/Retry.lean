import BlockJournal.Error

/-!
# Retrying

What to do when a record cannot be allocated.

A policy says whether to try again and how long to wait first. A bounded
policy doubles its delay from one attempt to the next up to a cap. The
doubling is a shift of a 64-bit word, so bits that leave the word are lost;
only a shift by the whole width of the word counts as too long and gives the
cap.

`retry` runs an operation under a policy. The operation is a function on a
state of any kind, so what it leaves behind when it fails is there for the
next attempt. Only running out of memory is retried. An indefinite policy may
never come to an end, so the number of retries it is given is an argument,
`patience`; the bounded ones end by themselves, and their own limit is used in
its place.

## Main definitions

* `RetryPolicy`: The policies.
* `RetryPolicy.backoff`: The delay before a retry, or none to give up.
* `retry`: Running an operation under a policy.
-/

namespace BlockJournal

/-- What to do when a record cannot be allocated. -/
inductive RetryPolicy where
  /-- Give up at once. -/
  | fail
  /-- Try again a number of times, waiting longer each time up to a cap. -/
  | bounded (maxAttempts : UInt32) (initialDelay maxDelay : UInt64)
  /-- Try again until it works. -/
  | indefinite (delay : UInt64)
  deriving DecidableEq, Repr

namespace RetryPolicy

/-- The policy of a journal that was not told otherwise. -/
def standard : RetryPolicy := .bounded 8 50 5000

instance : Inhabited RetryPolicy := ⟨standard⟩

/-- A delay doubled `attempt` times in a 64-bit word. -/
def doubled (delay : UInt64) (attempt : UInt32) : UInt64 :=
  if attempt < 64 then delay <<< attempt.toUInt64 else UInt64.ofNat (UInt64.size - 1)

/-- The delay in microseconds before the retry with the given number, counted
    from zero, or `none` to give up. -/
def backoff (policy : RetryPolicy) (attempt : UInt32) : Option UInt64 :=
  match policy with
  | fail => none
  | bounded maxAttempts initialDelay maxDelay =>
      if maxAttempts ≤ attempt then none else some (min (doubled initialDelay attempt) maxDelay)
  | indefinite delay => some delay

/-- The number of retries a policy can ask for, with `patience` in place of a
    limit where it has none. -/
def retries (policy : RetryPolicy) (patience : Nat) : Nat :=
  match policy with
  | fail => 0
  | bounded maxAttempts _ _ => maxAttempts.toNat
  | indefinite _ => patience

/-- A policy as a diagnostic shows it. -/
def describe : RetryPolicy → String
  | fail => "Fail"
  | bounded maxAttempts initialDelay maxDelay =>
      s!"Bounded \x7b max_attempts: {maxAttempts}, initial_backoff_us: {initialDelay}, " ++
        s!"max_backoff_us: {maxDelay} \x7d"
  | indefinite delay => s!"Indefinite \x7b backoff_us: {delay} \x7d"

end RetryPolicy

/-- A delay between two attempts. -/
structure Wait where
  /-- The number of the retry, counted from zero. -/
  attempt : UInt32
  /-- The delay in microseconds. -/
  delay : UInt64
  /-- What the attempt before it failed for. -/
  detail : String
  deriving DecidableEq, Repr

/-- What came of an operation run under a policy. -/
structure Retried (σ α : Type) where
  /-- The result of the last attempt, or `none` if patience ran out first. -/
  result : Option (Except Error α)
  /-- The state the last attempt left behind. -/
  state : σ
  /-- The delays between the attempts. -/
  waits : List Wait

/-- The number of the retry after one, which stays at the last number there is. -/
def nextAttempt (attempt : UInt32) : UInt32 :=
  if attempt = UInt32.ofNat (UInt32.size - 1) then attempt else attempt + 1

/-- Run an operation, with `fuel` retries to go and `attempt` the next of them. -/
def retryFrom {σ α : Type} (policy : RetryPolicy) (op : σ → Except Error α × σ) :
    (fuel : Nat) → (attempt : UInt32) → σ → Retried σ α
  | fuel, attempt, s =>
      match op s with
      | (.ok a, s) => ⟨some (.ok a), s, []⟩
      | (.error e, s) =>
          if e.isTransient then
            match policy.backoff attempt with
            | none => ⟨some (.error e), s, []⟩
            | some delay =>
                match fuel with
                | 0 => ⟨none, s, []⟩
                | fuel + 1 =>
                    let rest := retryFrom policy op fuel (nextAttempt attempt) s
                    { rest with waits := ⟨attempt, delay, e.detail⟩ :: rest.waits }
          else ⟨some (.error e), s, []⟩

/-- Run an operation under a policy. -/
def retry {σ α : Type} (policy : RetryPolicy) (patience : Nat) (op : σ → Except Error α × σ)
    (s : σ) : Retried σ α :=
  retryFrom policy op (policy.retries patience) 0 s

end BlockJournal
