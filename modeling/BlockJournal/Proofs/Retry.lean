import BlockJournal.Proofs.Backoff
import Mathlib.Data.Nat.Find
import Mathlib.Logic.Function.Iterate

/-!
# Retried Operations

What comes of an operation that is tried again.

An operation under a policy is called again and again, each time in the state that the
call before it left. `callState` and `callResult` say what its calls come to, whether or
not they are ever made. Running it under a policy makes some of them, from the first
to a last one, with a wait after each but the last; `retryFrom_traced` says so, by
induction on the retries that are left, and everything else is read off it.

How many calls are made follows from the outcomes and the policy alone. A policy with a
limit makes one call more than it has retries, unless one of them comes to something
else than running out of memory, and that includes the largest limit there is, which the
number of a retry never passes. A policy without a limit ends only with such an outcome,
and it gets there if it is given the patience. An operation that does nothing when it
fails is therefore run once, as far as its callers can tell.

## Main definitions

* `callState`, `callResult`: The calls of an operation, one after the other.
* `Traced`: What is left of the calls that were made.
* `RetryPolicy.limit`: The number of retries of a policy that gives up.
* `RanOut`: The outcome is that there is no memory.
* `FirstAnswer`: The first call with another outcome.
* `tallied`: An operation that counts its calls.
* `CalledUntil`: An operation was called up to a given call and no further.

## Theorems

* `retryFrom_cases`: The two ways for an attempt to end.
* `retryFrom_traced`: The calls that are made with some retries left.
* `retry_ends`: Where the calls end.
* `retry_counted`: The last attempt under a policy, and the number of those before it.
* `retry_last`: The last attempt under a policy.
* `retry_of_ok`: An operation that works at once is not tried again.
* `RetryPolicy.gives_up_iff`: When a policy gives up.
* `retry_of_hopeless`: An operation that never works is tried as often as the policy asks for.
* `retry_called`: How often an operation is called, whatever its outcomes are.
-/

namespace BlockJournal

section

variable {σ α : Type} {policy : RetryPolicy} {op : σ → Except Error α × σ}

/-- An attempt gives an answer, or it runs out of memory and the policy waits and tries
    again, as long as there are retries left. -/
theorem retryFrom_cases (policy : RetryPolicy) (op : σ → Except Error α × σ) (attempt : UInt32)
    (s : σ) :
    (∃ a s', op s = (a, s') ∧
      (∀ e, a = .error e → e.isTransient = false ∨ policy.backoff attempt = none) ∧
      ∀ fuel, retryFrom policy op fuel attempt s = ⟨some a, s', []⟩) ∨
    (∃ e s' delay, op s = (.error e, s') ∧ e.isTransient = true ∧
      policy.backoff attempt = some delay ∧
      retryFrom policy op 0 attempt s = ⟨none, s', []⟩ ∧
      ∀ fuel, retryFrom policy op (fuel + 1) attempt s =
        { retryFrom policy op fuel (nextAttempt attempt) s' with
          waits := ⟨attempt, delay, e.detail⟩ ::
            (retryFrom policy op fuel (nextAttempt attempt) s').waits }) := by
  rcases h : op s with ⟨e | a, s'⟩
  · cases ht : e.isTransient with
    | false =>
        refine Or.inl ⟨.error e, s', rfl, fun e' he => Or.inl (Except.error.inj he ▸ ht), ?_⟩
        intro fuel
        rw [retryFrom]
        simp only [h, ht, Bool.false_eq_true, if_false]
    | true =>
        cases hb : policy.backoff attempt with
        | none =>
            refine Or.inl ⟨.error e, s', rfl, fun _ _ => Or.inr rfl, fun fuel => ?_⟩
            rw [retryFrom]
            simp only [h, ht, if_true, hb]
        | some delay =>
            refine Or.inr ⟨e, s', delay, rfl, ht, rfl, ?_, fun fuel => ?_⟩
            · rw [retryFrom]
              simp only [h, ht, if_true, hb]
            · rw [retryFrom]
              simp only [h, ht, if_true, hb]
  · refine Or.inl ⟨.ok a, s', rfl, fun e he => ?_, fun fuel => ?_⟩
    · exact absurd he (by simp only [reduceCtorEq, not_false_eq_true])
    · rw [retryFrom]
      simp only [h]

/-- The state in which an operation is called, by the number of calls before. -/
def callState (op : σ → Except Error α × σ) (s : σ) (calls : Nat) : σ :=
  (fun s => (op s).2)^[calls] s

/-- What comes of a call, by the number of calls before. -/
def callResult (op : σ → Except Error α × σ) (s : σ) (calls : Nat) : Except Error α :=
  (op (callState op s calls)).1

theorem callState_succ (s : σ) (calls : Nat) :
    callState op s (calls + 1) = (op (callState op s calls)).2 :=
  Function.iterate_succ_apply' _ calls s

/-- What is left of the calls that were made with some retries to go. -/
structure Traced (policy : RetryPolicy) (op : σ → Except Error α × σ) (fuel : Nat)
    (attempt : UInt32) (s : σ) (r : Retried σ α) : Prop where
  -- There is a wait after every call but the last.
  state_eq : r.state = callState op s (r.waits.length + 1)
  length_le : r.waits.length ≤ fuel
  -- The call before a wait ran out of memory, and the wait is what the policy says.
  wait_eq : ∀ j w, r.waits[j]? = some w → ∃ e, callResult op s j = .error e ∧
    e.isTransient = true ∧ w.attempt = nextAttempt^[j] attempt ∧
    policy.backoff w.attempt = some w.delay
  -- An answer is that of the last call, and it is not one to try again after.
  answer_eq : ∀ a, r.result = some a → a = callResult op s r.waits.length ∧
    ∀ e, a = .error e → e.isTransient = false ∨
      policy.backoff (nextAttempt^[r.waits.length] attempt) = none
  -- Without an answer all retries were made, and the policy asks for another one.
  of_none : r.result = none → r.waits.length = fuel ∧ ∃ e, callResult op s fuel = .error e ∧
    e.isTransient = true ∧ policy.backoff (nextAttempt^[fuel] attempt) ≠ none

-- A single call, with an answer.
theorem traced_of_answer {s s' : σ} {a : Except Error α} (h : op s = (a, s')) {attempt : UInt32}
    (hfinal : ∀ e, a = .error e → e.isTransient = false ∨ policy.backoff attempt = none)
    (fuel : Nat) : Traced policy op fuel attempt s ⟨some a, s', []⟩ where
  state_eq := (congrArg Prod.snd h).symm
  length_le := Nat.zero_le _
  wait_eq j w hw := absurd hw (by simp only [List.getElem?_nil, reduceCtorEq, not_false_eq_true])
  answer_eq b hb := by
    rw [← Option.some.inj hb]
    exact ⟨(congrArg Prod.fst h).symm, hfinal⟩
  of_none hnone := absurd hnone (by simp only [reduceCtorEq, not_false_eq_true])

-- A single call that ran out of memory, with no retries to go.
theorem traced_of_transient {s s' : σ} {e : Error} {attempt : UInt32} {delay : UInt64}
    (h : op s = (.error e, s')) (ht : e.isTransient = true)
    (hb : policy.backoff attempt = some delay) :
    Traced policy op 0 attempt s ⟨none, s', []⟩ where
  state_eq := (congrArg Prod.snd h).symm
  length_le := Nat.zero_le _
  wait_eq j w hw := absurd hw (by simp only [List.getElem?_nil, reduceCtorEq, not_false_eq_true])
  answer_eq b hb := absurd hb (by simp only [reduceCtorEq, not_false_eq_true])
  of_none _ := by
    refine ⟨rfl, e, congrArg Prod.fst h, ht, ?_⟩
    rw [Function.iterate_zero_apply, hb]
    simp only [ne_eq, reduceCtorEq, not_false_eq_true]

-- A call that ran out of memory, and the calls after it.
theorem Traced.cons {s s' : σ} {e : Error} {fuel : Nat} {attempt : UInt32} {delay : UInt64}
    {r : Retried σ α} (hr : Traced policy op fuel (nextAttempt attempt) s' r)
    (h : op s = (.error e, s')) (ht : e.isTransient = true)
    (hb : policy.backoff attempt = some delay) :
    Traced policy op (fuel + 1) attempt s
      { r with waits := ⟨attempt, delay, e.detail⟩ :: r.waits } := by
  have hs' : (op s).2 = s' := congrArg Prod.snd h
  subst hs'
  refine ⟨hr.state_eq, Nat.succ_le_succ hr.length_le, fun j w hw => ?_, hr.answer_eq,
    fun hnone => ?_⟩
  · cases j with
    | zero =>
        rw [List.getElem?_cons_zero, Option.some.injEq] at hw
        rw [← hw]
        exact ⟨e, congrArg Prod.fst h, ht, rfl, hb⟩
    | succ j => exact hr.wait_eq j w hw
  · rcases hr.of_none hnone with ⟨hlength, hlast⟩
    exact ⟨congrArg (· + 1) hlength, hlast⟩

/-- The calls that are made with some retries to go. -/
theorem retryFrom_traced (policy : RetryPolicy) (op : σ → Except Error α × σ) (fuel : Nat)
    (attempt : UInt32) (s : σ) :
    Traced policy op fuel attempt s (retryFrom policy op fuel attempt s) := by
  induction fuel generalizing attempt s with
  | zero =>
      rcases retryFrom_cases policy op attempt s with
        ⟨a, s', h, hfinal, heq⟩ | ⟨e, s', delay, h, ht, hb, heq, _⟩
      · rw [heq]
        exact traced_of_answer h hfinal 0
      · rw [heq]
        exact traced_of_transient h ht hb
  | succ fuel ih =>
      rcases retryFrom_cases policy op attempt s with
        ⟨a, s', h, hfinal, heq⟩ | ⟨e, s', delay, h, ht, hb, _, heq⟩
      · rw [heq]
        exact traced_of_answer h hfinal (fuel + 1)
      · rw [heq]
        exact (ih (nextAttempt attempt) s').cons h ht hb

/-- The calls that are made under a policy. -/
theorem retry_traced (policy : RetryPolicy) (patience : Nat) (op : σ → Except Error α × σ)
    (s : σ) :
    Traced policy op (policy.retries patience) 0 s (retry policy patience op s) :=
  retryFrom_traced policy op _ 0 s

-- A call that failed left everything behind that failed attempts keep.
theorem kept_callState {Kept : Nat → σ → Prop} {s : σ} (hs : Kept 0 s) {calls : Nat}
    (hkept : ∀ n < calls, Kept n (callState op s n) → Kept (n + 1) (op (callState op s n)).2) :
    Kept calls (callState op s calls) := by
  induction calls with
  | zero => exact hs
  | succ calls ih =>
      rw [callState_succ]
      exact hkept calls (Nat.lt_succ_self calls)
        (ih fun n hn => hkept n (Nat.lt_succ_of_lt hn))

/-- The outcome under a policy is that of one attempt, made in a state that has
    everything failed attempts keep, one for each wait. -/
theorem retry_counted {Kept : Nat → σ → Prop} (patience : Nat)
    (hkept : ∀ n s e, Kept n s → (op s).1 = .error e → Kept (n + 1) (op s).2) {s : σ}
    (hs : Kept 0 s) :
    ∃ last, Kept (retry policy patience op s).waits.length last ∧
      (retry policy patience op s).state = (op last).2 ∧
      (∀ r, (retry policy patience op s).result = some r → r = (op last).1) ∧
      ((retry policy patience op s).result = none → ∃ e, (op last).1 = .error e) := by
  have htraced := retry_traced policy patience op s
  refine ⟨callState op s (retry policy patience op s).waits.length,
    kept_callState hs fun n hn hk => ?_, ?_, fun r hr => (htraced.answer_eq r hr).1,
    fun hnone => ?_⟩
  · rcases htraced.wait_eq n _ (List.getElem?_eq_getElem hn) with ⟨e, he, _⟩
    exact hkept n _ e hk he
  · rw [htraced.state_eq, callState_succ]
  · rcases htraced.of_none hnone with ⟨hlength, e, he, _⟩
    rw [hlength]
    exact ⟨e, he⟩

/-- The outcome under a policy is that of one attempt, made in a state that has
    everything failed attempts keep. -/
theorem retry_last {Kept : σ → Prop} (patience : Nat)
    (hkept : ∀ s e, Kept s → (op s).1 = .error e → Kept (op s).2) {s : σ} (hs : Kept s) :
    ∃ last, Kept last ∧ (retry policy patience op s).state = (op last).2 ∧
      (∀ r, (retry policy patience op s).result = some r → r = (op last).1) ∧
      ((retry policy patience op s).result = none → ∃ e, (op last).1 = .error e) :=
  @retry_counted _ _ _ _ (fun _ => Kept) patience (fun _ => hkept) _ hs

/-- An operation that works at once is not tried again. -/
theorem retry_of_ok {s s' : σ} {a : α} (h : op s = (.ok a, s')) (patience : Nat) :
    retry policy patience op s = ⟨some (.ok a), s', []⟩ := by
  rcases retryFrom_cases policy op 0 s with ⟨b, s'', h', _, heq⟩ | ⟨e, _, _, h', _⟩
  · rw [h, Prod.mk.injEq] at h'
    rw [retry, heq, ← h'.1, ← h'.2]
  · rw [h, Prod.mk.injEq] at h'
    exact absurd h'.1 (by simp only [reduceCtorEq, not_false_eq_true])

end

/-- The number of retries after which a policy gives up, if it does. -/
def RetryPolicy.limit : RetryPolicy → Option Nat
  | fail => some 0
  | bounded maxAttempts _ _ => some maxAttempts.toNat
  | indefinite _ => none

theorem RetryPolicy.retries_eq (policy : RetryPolicy) (patience : Nat) :
    policy.retries patience = policy.limit.getD patience := by
  cases policy with
  | fail | bounded | indefinite => rfl

theorem RetryPolicy.lt_size_of_limit {policy : RetryPolicy} {m : Nat}
    (h : policy.limit = some m) : m < UInt32.size := by
  cases policy with
  | fail => exact Option.some.inj h ▸ by decide
  | bounded maxAttempts initialDelay maxDelay => exact Option.some.inj h ▸ maxAttempts.toNat_lt
  | indefinite delay => exact absurd h (by simp only [limit, reduceCtorEq, not_false_eq_true])

-- The number of a retry grows up to the last number there is.
theorem toNat_iterate_nextAttempt (j : Nat) :
    (nextAttempt^[j] 0).toNat = min j (UInt32.size - 1) := by
  induction j with
  | zero => rfl
  | succ j ih =>
      rw [Function.iterate_succ_apply']
      generalize nextAttempt^[j] 0 = attempt at ih ⊢
      have hlast : attempt = UInt32.ofNat (UInt32.size - 1) ↔ attempt.toNat = UInt32.size - 1 := by
        rw [← UInt32.toNat_inj]
        rfl
      have hone : (1 : UInt32).toNat = 1 := rfl
      have hlt := attempt.toNat_lt
      unfold nextAttempt
      split
      · rename_i h
        have hmax := hlast.mp h
        simp only [UInt32.size] at ih hmax ⊢
        omega
      · rename_i h
        have hne := mt hlast.mpr h
        rw [UInt32.toNat_add, hone]
        simp only [UInt32.size] at ih hne ⊢
        omega

/-- A policy gives up after as many retries as its limit says, also if that is the last
    number a retry can have. -/
theorem RetryPolicy.gives_up_iff {policy : RetryPolicy} {j : Nat} :
    policy.backoff (nextAttempt^[j] 0) = none ↔ ∃ m, policy.limit = some m ∧ m ≤ j := by
  cases policy with
  | fail => simp only [backoff, limit, Option.some.injEq, exists_eq_left', Nat.zero_le]
  | bounded maxAttempts initialDelay maxDelay =>
      have hlt := maxAttempts.toNat_lt
      simp only [backoff_eq_none_iff, UInt32.le_iff_toNat_le, toNat_iterate_nextAttempt, limit,
        Option.some.injEq, exists_eq_left', UInt32.size]
      omega
  | indefinite delay => simp only [backoff, limit, reduceCtorEq, false_and, exists_false]

section

variable {σ α : Type}

/-- The outcome of a call is that there is no memory. -/
def RanOut : Except Error α → Prop
  | .ok _ => False
  | .error e => e.category = .outOfMemory

instance (r : Except Error α) : Decidable (RanOut r) :=
  match r with
  | .ok _ => isFalse id
  | .error e => inferInstanceAs (Decidable (e.category = .outOfMemory))

-- It is the only one that is worth another attempt.
theorem ranOut_iff {r : Except Error α} :
    RanOut r ↔ ∃ e, r = .error e ∧ e.isTransient = true := by
  cases r with
  | ok a => simp only [RanOut, reduceCtorEq, false_and, exists_false]
  | error e =>
      simp only [RanOut, Except.error.injEq, exists_eq_left', Error.isTransient]
      cases e.category with
      | outOfMemory => simp only [ErrorClass.isTransient]
      | io | corruption | format | parse | unsupportedFeature | invalidGeometry =>
          simp only [ErrorClass.isTransient, reduceCtorEq, Bool.false_eq_true]

variable {policy : RetryPolicy} {patience : Nat} {op : σ → Except Error α × σ} {s : σ}

/-- Every call but the last ran out of memory, and the last one did so only if the policy
    gives up there or there is no more patience. -/
theorem retry_ends (policy : RetryPolicy) (patience : Nat) (op : σ → Except Error α × σ) (s : σ) :
    let r := retry policy patience op s
    let last := r.waits.length
    (∀ j < last, RanOut (callResult op s j)) ∧ last ≤ policy.limit.getD patience ∧
      ((r.result = some (callResult op s last) ∧
          (RanOut (callResult op s last) → policy.limit = some last)) ∨
        (r.result = none ∧ policy.limit = none ∧ last = patience ∧
          RanOut (callResult op s last))) := by
  intro r last
  have htraced := retry_traced policy patience op s
  have hle : last ≤ policy.limit.getD patience :=
    policy.retries_eq patience ▸ htraced.length_le
  refine ⟨fun j hj => ?_, hle, ?_⟩
  · rcases htraced.wait_eq j _ (List.getElem?_eq_getElem hj) with ⟨e, he, ht, _⟩
    exact ranOut_iff.mpr ⟨e, he, ht⟩
  cases hresult : r.result with
  | some a =>
      rcases htraced.answer_eq a hresult with ⟨rfl, hfinal⟩
      refine Or.inl ⟨rfl, fun hout => ?_⟩
      rcases ranOut_iff.mp hout with ⟨e, he, ht⟩
      rcases hfinal e he with hperm | hgive
      · rw [ht] at hperm
        exact absurd hperm (by simp only [Bool.true_eq_false, not_false_eq_true])
      · rcases RetryPolicy.gives_up_iff.mp hgive with ⟨m, hm, hml⟩
        rw [hm, Option.getD_some] at hle
        rw [hm, Nat.le_antisymm hml hle]
  | none =>
      rcases htraced.of_none hresult with ⟨hlength, e, he, ht, hb⟩
      rw [RetryPolicy.retries_eq] at hlength he hb
      have hlimit : policy.limit = none := by
        cases hm : policy.limit with
        | none => rfl
        | some m =>
            rw [hm, Option.getD_some] at hb
            exact absurd (RetryPolicy.gives_up_iff.mpr ⟨m, hm, Nat.le_refl m⟩) hb
      rw [← hlength] at he
      rw [hlimit] at hlength
      exact Or.inr ⟨rfl, hlimit, hlength, ranOut_iff.mpr ⟨e, he, ht⟩⟩

/-- An operation that never works is tried as often as the policy asks for, if the policy
    gives up at all. -/
theorem retry_of_hopeless {e : Error} (hpolicy : ∀ delay, policy ≠ .indefinite delay)
    (patience : Nat) (ht : e.isTransient = true) {Kept : Nat → σ → Prop}
    (hfail : ∀ n s, Kept n s → (op s).1 = .error e ∧ Kept (n + 1) (op s).2)
    (hs : Kept 0 s) :
    (retry policy patience op s).result = some (.error e) ∧
      Kept (policy.retries patience + 1) (retry policy patience op s).state := by
  have hkept : ∀ n, Kept n (callState op s n) :=
    fun n => kept_callState hs fun j _ hj => (hfail j _ hj).2
  have hcalls : ∀ n, callResult op s n = .error e := fun n => (hfail n _ (hkept n)).1
  have hstate := (retry_traced policy patience op s).state_eq
  rcases (retry_ends policy patience op s).2.2 with ⟨hresult, hlast⟩ | ⟨_, hlimit, _⟩
  · specialize hlast (ranOut_iff.mpr ⟨e, hcalls _, ht⟩)
    rw [hresult, hcalls, hstate, RetryPolicy.retries_eq, hlast, Option.getD_some]
    exact ⟨rfl, hkept _⟩
  · cases policy with
    | fail | bounded =>
        exact absurd hlimit (by simp only [RetryPolicy.limit, reduceCtorEq, not_false_eq_true])
    | indefinite delay => exact absurd rfl (hpolicy delay)

/-- The first call that comes to something else than running out of memory. -/
def FirstAnswer (op : σ → Except Error α × σ) (s : σ) (i : Nat) : Prop :=
  ¬RanOut (callResult op s i) ∧ ∀ j < i, RanOut (callResult op s j)

instance (op : σ → Except Error α × σ) (s : σ) (i : Nat) : Decidable (FirstAnswer op s i) :=
  inferInstanceAs (Decidable (¬RanOut (callResult op s i) ∧ ∀ j < i, RanOut (callResult op s j)))

-- If any of the first calls does, there is a first one.
theorem exists_firstAnswer {i : Nat} (h : ¬RanOut (callResult op s i)) :
    ∃ j ≤ i, FirstAnswer op s j := by
  have hanswer : ∃ j, ¬RanOut (callResult op s j) := ⟨i, h⟩
  refine ⟨Nat.find hanswer, Nat.find_min' hanswer h, Nat.find_spec hanswer, fun j hj => ?_⟩
  exact not_not.mp (Nat.find_min hanswer hj)

/-- An operation that counts its calls. -/
def tallied (op : σ → Except Error α × σ) (s : σ × Nat) : Except Error α × (σ × Nat) :=
  ((op s.1).1, (op s.1).2, s.2 + 1)

-- Counting changes nothing, and there is one call more than there are waits.
theorem retryFrom_tallied (policy : RetryPolicy) (op : σ → Except Error α × σ) (fuel : Nat)
    (attempt : UInt32) (s : σ) (calls : Nat) :
    retryFrom policy (tallied op) fuel attempt (s, calls) =
      let r := retryFrom policy op fuel attempt s
      ⟨r.result, (r.state, calls + (r.waits.length + 1)), r.waits⟩ := by
  induction fuel generalizing attempt s calls with
  | zero =>
      rw [retryFrom, retryFrom]
      rcases h : op s with ⟨e | a, s'⟩
      · simp only [tallied, h]
        cases e.isTransient with
        | false => rfl
        | true => cases policy.backoff attempt with
          | none | some delay => rfl
      · simp only [tallied, h]
        rfl
  | succ fuel ih =>
      rw [retryFrom, retryFrom]
      rcases h : op s with ⟨e | a, s'⟩
      · simp only [tallied, h]
        cases e.isTransient with
        | false => rfl
        | true => cases policy.backoff attempt with
          | none => rfl
          | some delay =>
              simp only [if_true, ih, List.length_cons]
              rw [Nat.add_right_comm calls, Nat.add_assoc calls]
      · simp only [tallied, h]
        rfl

/-- An operation was called up to a given call, with a wait before each call after the
    first, and the outcome is that of its last call. -/
structure CalledUntil (policy : RetryPolicy) (patience : Nat) (op : σ → Except Error α × σ)
    (s : σ) (last : Nat) : Prop where
  result_eq : (retry policy patience op s).result = some (callResult op s last)
  state_eq : (retry policy patience op s).state = callState op s (last + 1)
  calls_eq : (retry policy patience (tallied op) (s, 0)).state.2 = last + 1
  length_waits : (retry policy patience op s).waits.length = last

-- With an outcome, the calls end with it.
theorem calledUntil_length (h : (retry policy patience op s).result =
      some (callResult op s (retry policy patience op s).waits.length)) :
    CalledUntil policy patience op s (retry policy patience op s).waits.length where
  result_eq := h
  state_eq := (retry_traced policy patience op s).state_eq
  calls_eq := by
    rw [retry, retryFrom_tallied]
    exact Nat.zero_add _
  length_waits := rfl

/-- The calls end with the first answer there is, if the policy has them get there. -/
theorem FirstAnswer.calledUntil {i : Nat} (h : FirstAnswer op s i)
    (hi : i ≤ policy.limit.getD patience) : CalledUntil policy patience op s i := by
  rcases retry_ends policy patience op s with ⟨hbefore, _, hlast⟩
  have hle : (retry policy patience op s).waits.length ≤ i :=
    Nat.le_of_not_lt fun hlt => h.1 (hbefore i hlt)
  rcases hlast with ⟨hresult, hgive⟩ | ⟨_, hlimit, hlast, hout⟩
  · -- Had the calls ended before it, the policy would have given up before it.
    have heq : (retry policy patience op s).waits.length = i := by
      refine Nat.le_antisymm hle (Nat.le_of_not_lt fun hlt => ?_)
      rw [hgive (h.2 _ hlt), Option.getD_some] at hi
      exact absurd hlt (Nat.not_lt_of_le hi)
    exact heq ▸ calledUntil_length hresult
  · rw [hlimit, Option.getD_none, ← hlast] at hi
    exact absurd (Nat.le_antisymm hle hi ▸ hout) h.1

/-- A policy that gives up makes as many calls as it may if there is no answer among them. -/
theorem calledUntil_of_no_answer {m : Nat} (hm : policy.limit = some m)
    (h : ¬∃ i ≤ m, FirstAnswer op s i) :
    CalledUntil policy patience op s m ∧ RanOut (callResult op s m) := by
  rcases retry_ends policy patience op s with ⟨_, hle, hlast⟩
  rw [hm, Option.getD_some] at hle
  rcases hlast with ⟨hresult, hgive⟩ | ⟨_, hlimit, _⟩
  · have hout : RanOut (callResult op s (retry policy patience op s).waits.length) := by
      by_contra hanswer
      rcases exists_firstAnswer hanswer with ⟨i, hi, hfirst⟩
      exact h ⟨i, Nat.le_trans hi hle, hfirst⟩
    have heq : m = (retry policy patience op s).waits.length :=
      Option.some.inj (hm.symm.trans (hgive hout))
    rw [heq]
    exact ⟨calledUntil_length hresult, hout⟩
  · rw [hm] at hlimit
    exact absurd hlimit (by simp only [reduceCtorEq, not_false_eq_true])

-- Without a limit only the patience can run out.
theorem retry_eq_none_iff (hlimit : policy.limit = none) :
    (retry policy patience op s).result = none ↔ ∀ i ≤ patience, RanOut (callResult op s i) := by
  rcases retry_ends policy patience op s with ⟨hbefore, hle, hlast⟩
  rw [hlimit] at hle
  rcases hlast with ⟨hresult, hgive⟩ | ⟨hresult, _, hlast, hout⟩
  · rw [hresult]
    simp only [reduceCtorEq, false_iff]
    intro h
    have hsome := hgive (h _ hle)
    rw [hlimit] at hsome
    exact absurd hsome (by simp only [reduceCtorEq, not_false_eq_true])
  · refine ⟨fun _ i hi => ?_, fun _ => hresult⟩
    rw [← hlast] at hi
    rcases Nat.lt_or_eq_of_le hi with hlt | rfl
    · exact hbefore i hlt
    · exact hout

-- A policy without a limit returns no error that there is no memory.
theorem not_ranOut_of_retry (hlimit : policy.limit = none) {r : Except Error α}
    (hr : (retry policy patience op s).result = some r) : ¬RanOut r := by
  rcases retry_ends policy patience op s with ⟨_, _, ⟨hresult, hgive⟩ | ⟨hresult, _⟩⟩
  · rw [hresult, Option.some.injEq] at hr
    rw [← hr]
    intro hout
    rw [hlimit] at hgive
    exact absurd (hgive hout) (by simp only [reduceCtorEq, not_false_eq_true])
  · rw [hresult] at hr
    exact absurd hr (by simp only [reduceCtorEq, not_false_eq_true])

/-- How often an operation is called, whatever its outcomes are.

    A policy with a limit always ends. It stops at the first answer, if that comes within
    its retries, and otherwise makes them all. Before retry `j` it waits as long as the
    policy says for `j`. A policy without a limit stops at the first answer as soon as it
    has the patience to get there, and it has no other result. -/
theorem retry_called (policy : RetryPolicy) (patience : Nat) (op : σ → Except Error α × σ)
    (s : σ) :
    (∀ m, policy.limit = some m →
      (∃ last ≤ m, CalledUntil policy patience op s last) ∧
      (∀ i ≤ m, FirstAnswer op s i → CalledUntil policy patience op s i) ∧
      ((¬∃ i ≤ m, FirstAnswer op s i) →
        CalledUntil policy patience op s m ∧ RanOut (callResult op s m)) ∧
      ∀ j (w : Wait), (retry policy patience op s).waits[j]? = some w →
        w.attempt.toNat = j ∧ policy.backoff w.attempt = some w.delay) ∧
    (policy.limit = none →
      (∀ i ≤ patience, FirstAnswer op s i → CalledUntil policy patience op s i) ∧
      ((retry policy patience op s).result = none ↔ ∀ i ≤ patience, RanOut (callResult op s i)) ∧
      ∀ r, (retry policy patience op s).result = some r → ¬RanOut r) := by
  refine ⟨fun m hm => ⟨?_, fun i hi h => ?_, calledUntil_of_no_answer hm, fun j w hw => ?_⟩,
    fun hlimit => ⟨fun i hi h => ?_, retry_eq_none_iff hlimit,
      fun r => not_ranOut_of_retry hlimit⟩⟩
  · by_cases h : ∃ i ≤ m, FirstAnswer op s i
    · rcases h with ⟨i, hi, h⟩
      exact ⟨i, hi, h.calledUntil (by rw [hm, Option.getD_some]; exact hi)⟩
    · exact ⟨m, Nat.le_refl m, (calledUntil_of_no_answer hm h).1⟩
  · exact h.calledUntil (by rw [hm, Option.getD_some]; exact hi)
  · have htraced := retry_traced policy patience op s
    rcases htraced.wait_eq j w hw with ⟨_, _, _, hattempt, hb⟩
    refine ⟨?_, hb⟩
    have hj : j < m := by
      have hlt := Nat.lt_of_lt_of_le (List.getElem?_eq_some_iff.mp hw).1 htraced.length_le
      rw [RetryPolicy.retries_eq, hm, Option.getD_some] at hlt
      exact hlt
    have hsize := RetryPolicy.lt_size_of_limit hm
    rw [hattempt, toNat_iterate_nextAttempt]
    omega
  · exact h.calledUntil (by rw [hlimit, Option.getD_none]; exact hi)

end

/-- An operation that runs out of memory a number of times and then works, on a state that
    counts its calls. -/
def busyUntil (free : Nat) (calls : Nat) : Except Error Nat × Nat :=
  (if calls < free then .error (.poolExhausted calls) else .ok calls, calls + 1)

-- The largest limit there is gets to the fourth call, a limit of two does not, and a policy
-- without a limit gets there or runs out of patience.
theorem busyUntil_called :
    CalledUntil (.bounded 4294967295 50 5000) 0 (busyUntil 3) 0 3 ∧
      CalledUntil (.bounded 2 50 5000) 0 (busyUntil 3) 0 2 ∧
      RanOut (callResult (busyUntil 3) 0 2) ∧
      CalledUntil (.indefinite 50) 3 (busyUntil 3) 0 3 ∧
      (retry (.indefinite 50) 2 (busyUntil 3) 0).result = none := by
  have hfirst : FirstAnswer (busyUntil 3) 0 3 := by decide
  have hnone : ¬∃ i ≤ 2, FirstAnswer (busyUntil 3) 0 i := by decide
  have hgive := ((retry_called (.bounded 2 50 5000) 0 (busyUntil 3) 0).1 2 rfl).2.2.1 hnone
  refine ⟨?_, hgive.1, hgive.2, ?_, ?_⟩
  · exact ((retry_called (.bounded 4294967295 50 5000) 0 (busyUntil 3) 0).1 4294967295 rfl).2.1
      3 (by decide) hfirst
  · exact ((retry_called (.indefinite 50) 3 (busyUntil 3) 0).2 rfl).1 3 (by decide) hfirst
  · exact ((retry_called (.indefinite 50) 2 (busyUntil 3) 0).2 rfl).2.1.mpr (by decide)

end BlockJournal
