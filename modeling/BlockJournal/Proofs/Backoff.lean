import BlockJournal.Retry
import Mathlib.Algebra.Group.Nat.Defs

/-!
# Delays between Attempts

How close a bounded policy comes to a capped exponential.

A bounded policy is meant to double its delay from one attempt to the next, up to a
cap. The doubling is a shift of a word, though, and what is shifted out of the word is
lost. As long as the word holds the doubled delay, or what is left of it in the word is
no less than the cap, the cap makes the loss good. Otherwise the delay falls short. A
shift by a whole word or more is taken for a long delay, which is wrong for a delay of
zero and right for any other. `RetryPolicy.Strays` are the attempts at which one of the
two happens, and a policy waits as it is meant to exactly if there is none among its
attempts.

## Main definitions

* `RetryPolicy.cappedDelay`: The delay of a capped exponential.
* `RetryPolicy.Strays`: The attempts at which the shift gives another delay.
* `RetryPolicy.CappedExponential`: A policy that waits as it is meant to.

## Theorems

* `toNat_doubled_of_lt`: What a shift leaves of a delay.
* `backoff_eq_none_iff`: When a bounded policy gives up.
* `delay_eq_capped_iff`: The attempts with the right delay.
* `cappedExponential_iff`: The policies that wait as they are meant to.
-/

namespace BlockJournal

namespace RetryPolicy

/-- The delay of a capped exponential: doubled with every attempt, and never above the
    cap. -/
def cappedDelay (initialDelay maxDelay : UInt64) (attempt : UInt32) : Nat :=
  min (initialDelay.toNat * 2 ^ attempt.toNat) maxDelay.toNat

/-- The shift gives another delay than doubling does, and the cap does not make it good: too
    little of the delay stays in the word, or the shift is as long as the word and the delay
    is zero. -/
def Strays (initialDelay maxDelay : UInt64) (attempt : UInt32) : Prop :=
  if attempt < 64 then
    UInt64.size ≤ initialDelay.toNat * 2 ^ attempt.toNat ∧
      initialDelay.toNat * 2 ^ attempt.toNat % UInt64.size < maxDelay.toNat
  else initialDelay = 0 ∧ maxDelay ≠ 0

theorem toNat_min (a b : UInt64) : (min a b).toNat = min a.toNat b.toNat := by
  change (if a ≤ b then a else b).toNat = _
  by_cases h : a ≤ b
  · rw [if_pos h, Nat.min_eq_left (UInt64.le_iff_toNat_le.mp h)]
  · rw [if_neg h, Nat.min_eq_right (Nat.le_of_not_le fun hle => h (UInt64.le_iff_toNat_le.mpr hle))]

/-- A shift that is shorter than the word leaves what the word has room for. -/
theorem toNat_doubled_of_lt (delay : UInt64) {attempt : UInt32} (h : attempt < 64) :
    (doubled delay attempt).toNat = delay.toNat * 2 ^ attempt.toNat % UInt64.size := by
  have hlt : attempt.toNat < 64 := UInt32.lt_iff_toNat_lt.mp h
  rw [doubled, if_pos h, UInt64.toNat_shiftLeft, UInt32.toNat_toUInt64, Nat.mod_eq_of_lt hlt,
    Nat.shiftLeft_eq]

-- A longer one is taken for the longest delay there is.
theorem toNat_doubled_of_le (delay : UInt64) {attempt : UInt32} (h : ¬ attempt < 64) :
    (doubled delay attempt).toNat = UInt64.size - 1 := by
  rw [doubled, if_neg h]
  rfl

variable {maxAttempts : UInt32} {initialDelay maxDelay : UInt64}

/-- A bounded policy gives up once it has made all its attempts. -/
theorem backoff_eq_none_iff {attempt : UInt32} :
    (bounded maxAttempts initialDelay maxDelay).backoff attempt = none ↔ maxAttempts ≤ attempt := by
  unfold backoff
  by_cases h : maxAttempts ≤ attempt
  · simp only [h, if_true]
  · simp only [h, if_false, reduceCtorEq]

theorem backoff_eq_some_iff {attempt : UInt32} {delay : UInt64} :
    (bounded maxAttempts initialDelay maxDelay).backoff attempt = some delay ↔
      attempt < maxAttempts ∧ delay = min (doubled initialDelay attempt) maxDelay := by
  unfold backoff
  by_cases h : maxAttempts ≤ attempt
  · simp only [h, if_true, reduceCtorEq, UInt32.not_lt.mpr h, false_and]
  · simp only [h, if_false, Option.some.injEq, UInt32.not_le.mp h, true_and, eq_comm]

/-- The delay of an attempt is that of the capped exponential unless the attempt strays. -/
theorem delay_eq_capped_iff {attempt : UInt32} {delay : UInt64}
    (h : (bounded maxAttempts initialDelay maxDelay).backoff attempt = some delay) :
    delay.toNat = cappedDelay initialDelay maxDelay attempt ↔
      ¬ Strays initialDelay maxDelay attempt := by
  have hcap : maxDelay.toNat < UInt64.size := maxDelay.toNat_lt
  rw [(backoff_eq_some_iff.mp h).2, toNat_min, cappedDelay, Strays]
  by_cases hlt : attempt < 64
  · rw [if_pos hlt, toNat_doubled_of_lt initialDelay hlt]
    generalize initialDelay.toNat * 2 ^ attempt.toNat = wanted
    by_cases hword : wanted < UInt64.size
    · rw [Nat.mod_eq_of_lt hword]
      omega
    · -- The word does not hold the delay, so the cap is what was wanted.
      omega
  · rw [if_neg hlt, toNat_doubled_of_le initialDelay hlt]
    have hpow : UInt64.size ≤ 2 ^ attempt.toNat := by
      rw [show UInt64.size = 2 ^ 64 from rfl]
      refine Nat.pow_le_pow_right (by decide) (Nat.le_of_not_lt fun h => hlt ?_)
      exact UInt32.lt_iff_toNat_lt.mpr h
    by_cases hzero : initialDelay = 0
    · have hcapped : maxDelay = 0 ↔ maxDelay.toNat = 0 := UInt64.toNat_inj.symm
      simp only [hzero, UInt64.toNat_zero, Nat.zero_mul, ne_eq, hcapped, true_and, Decidable.not_not]
      omega
    · -- Any other delay has outgrown the word, and the cap with it.
      have hpos : 0 < initialDelay.toNat :=
        Nat.pos_of_ne_zero fun h => hzero (UInt64.toNat_inj.mp h)
      have hgrown := Nat.le_mul_of_pos_left (2 ^ attempt.toNat) hpos
      simp only [hzero, false_and, not_false_eq_true, iff_true]
      omega

/-- A policy that waits like a capped exponential. -/
structure CappedExponential (maxAttempts : UInt32) (initialDelay maxDelay : UInt64) : Prop where
  -- It gives up once it has made all its attempts.
  none_iff : ∀ attempt,
    (bounded maxAttempts initialDelay maxDelay).backoff attempt = none ↔ maxAttempts ≤ attempt
  -- The delays double up to the cap.
  delay_eq : ∀ attempt delay,
    (bounded maxAttempts initialDelay maxDelay).backoff attempt = some delay →
      delay.toNat = cappedDelay initialDelay maxDelay attempt
  -- No delay is shorter than one before it.
  monotone : ∀ attempt later delay delay', attempt ≤ later →
    (bounded maxAttempts initialDelay maxDelay).backoff attempt = some delay →
    (bounded maxAttempts initialDelay maxDelay).backoff later = some delay' → delay ≤ delay'
  -- Once the delays have come up to the cap they stay there.
  stays : ∀ attempt later delay, attempt ≤ later →
    (bounded maxAttempts initialDelay maxDelay).backoff attempt = some maxDelay →
    (bounded maxAttempts initialDelay maxDelay).backoff later = some delay → delay = maxDelay

-- Capped exponentials grow, and end at the cap.
theorem cappedDelay_le {attempt later : UInt32} (h : attempt ≤ later) :
    cappedDelay initialDelay maxDelay attempt ≤ cappedDelay initialDelay maxDelay later := by
  have hle : attempt.toNat ≤ later.toNat := UInt32.le_iff_toNat_le.mp h
  have hgrown := Nat.mul_le_mul_left initialDelay.toNat
    (Nat.pow_le_pow_right (by decide : 0 < 2) hle)
  unfold cappedDelay
  omega

/-- What the delays have to do with each other follows from what they are. -/
theorem CappedExponential.of_delay_eq
    (h : ∀ attempt delay,
      (bounded maxAttempts initialDelay maxDelay).backoff attempt = some delay →
        delay.toNat = cappedDelay initialDelay maxDelay attempt) :
    CappedExponential maxAttempts initialDelay maxDelay := by
  refine ⟨fun attempt => backoff_eq_none_iff, h, fun attempt later delay delay' hle hd hd' => ?_,
    fun attempt later delay hle hcap hd => ?_⟩
  · rw [UInt64.le_iff_toNat_le, h attempt delay hd, h later delay' hd']
    exact cappedDelay_le hle
  · have hreached : cappedDelay initialDelay maxDelay attempt ≤
        cappedDelay initialDelay maxDelay later := cappedDelay_le hle
    rw [← h attempt maxDelay hcap, ← h later delay hd] at hreached
    have hbound : delay.toNat ≤ maxDelay.toNat := by
      rw [h later delay hd]
      exact Nat.min_le_right _ _
    exact UInt64.toNat_inj.mp (Nat.le_antisymm hbound hreached)

/-- A bounded policy gives up when it should, and each of its delays is right unless the
    attempt strays. So it waits like a capped exponential exactly if no attempt that it makes
    strays. -/
theorem cappedExponential_iff (maxAttempts : UInt32) (initialDelay maxDelay : UInt64) :
    (∀ attempt,
      (bounded maxAttempts initialDelay maxDelay).backoff attempt = none ↔
        maxAttempts ≤ attempt) ∧
    (∀ attempt delay,
      (bounded maxAttempts initialDelay maxDelay).backoff attempt = some delay →
        (delay.toNat = cappedDelay initialDelay maxDelay attempt ↔
          ¬ Strays initialDelay maxDelay attempt)) ∧
    (CappedExponential maxAttempts initialDelay maxDelay ↔
      ∀ attempt, attempt < maxAttempts → ¬ Strays initialDelay maxDelay attempt) := by
  refine ⟨fun attempt => backoff_eq_none_iff, fun attempt delay h => delay_eq_capped_iff h,
    fun h attempt hlt => ?_, fun h => ?_⟩
  · have hsome : (bounded maxAttempts initialDelay maxDelay).backoff attempt =
        some (min (doubled initialDelay attempt) maxDelay) := backoff_eq_some_iff.mpr ⟨hlt, rfl⟩
    exact (delay_eq_capped_iff hsome).mp (h.delay_eq _ _ hsome)
  · refine CappedExponential.of_delay_eq fun attempt delay hd => ?_
    exact (delay_eq_capped_iff hd).mpr (h attempt (backoff_eq_some_iff.mp hd).1)

-- A single bit can be shifted all the way up to the end of the word.
theorem cappedExponential_iff_singleBit :
    (bounded 64 1 18446744073709551615).backoff 63 = some 9223372036854775808 ∧
      CappedExponential 64 1 18446744073709551615 := by
  refine ⟨by decide, (cappedExponential_iff 64 1 18446744073709551615).2.2.mpr ?_⟩
  intro attempt hlt hstrays
  have hlt' : attempt.toNat < 64 := UInt32.lt_iff_toNat_lt.mp hlt
  have hpow : 2 ^ attempt.toNat < 2 ^ 64 := Nat.pow_lt_pow_right (by decide) hlt'
  rw [Strays, if_pos hlt, UInt64.toNat_one, Nat.one_mul] at hstrays
  exact absurd hstrays.1 (Nat.not_le_of_lt hpow)

-- A delay that leaves the word at once, one that leaves it at the last shift there is, and a
-- delay of zero that is taken for a long one.
theorem not_cappedExponential :
    ((bounded 100 9223372036854775808 5000).backoff 1 = some 0 ∧
      cappedDelay 9223372036854775808 5000 1 = 5000 ∧
      ¬ CappedExponential 100 9223372036854775808 5000) ∧
    ((bounded 100 50 5000).backoff 62 = some 5000 ∧ (bounded 100 50 5000).backoff 63 = some 0 ∧
      ¬ CappedExponential 100 50 5000) ∧
    ((bounded 100 0 5000).backoff 64 = some 5000 ∧ cappedDelay 0 5000 64 = 0 ∧
      ¬ CappedExponential 100 0 5000) := by
  refine ⟨⟨by decide, by decide, fun h => ?_⟩, ⟨by decide, by decide, fun h => ?_⟩,
    by decide, by decide, fun h => ?_⟩
  · exact absurd (h.delay_eq 1 0 (by decide)) (by decide)
  · exact absurd (h.monotone 62 63 5000 0 (by decide) (by decide) (by decide)) (by decide)
  · exact absurd (h.delay_eq 64 5000 (by decide)) (by decide)

end RetryPolicy

end BlockJournal
