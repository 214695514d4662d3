import BlockJournal.Proofs.Store.Marks

/-!
# Handing Out Buffers

Which buffer a caller of the cache gets, in the long run.

The hashed mark of a buffer and the index of the cache are changed in separate steps: a
buffer is made with the mark and then put into the index, and it is taken out and then
loses the mark. A read may even find that somebody else put its block into the cache
while the device was at work. The two agree all the same after every call, in whatever
order calls come and whatever is done to the store during a read.

A read is one call here, with the calls of others that it has to wait for as part of it.
Reads that overlap without one being inside the other come to nothing new: the one that
ends first might as well have started later, since the device it reads is any device.

There are only three things a call can come to. It hands out the buffer of a block, which
it may make first; it drops a block; or it makes a buffer that is not in the cache.
`serve_kept` says so once and for all, by induction on calls inside calls.

## Main definitions

* `StoreCall`: What can be asked of a store.
* `StoreEvent`: What callers get.
* `StoreRun`: A store, with everything callers got so far.
* `StoreCall.serve`, `StoreCall.serveAll`: Calls, one after the other.
* `Store.Yields`: What one event may do to a store.
* `Outstanding`: A buffer that somebody got and that was not dropped since.
* `StoreRun.InStep`: What every event keeps.
* `StoreRun.Faithful`, `Store.Answers`: What callers can rely on.

## Theorems

* `InStep.yields`: One event keeps the marks and the index in step.
* `serve_kept`: What the three things a call can come to keep holds after calls.
* `Store.answers`: What the next call comes to.
* `handouts_in_step`: Callers can rely on it after any calls.
-/

namespace BlockJournal

/-- What can be asked of a store. A read goes on while others call the store. -/
inductive StoreCall where
  | getOrCreate (block : BlockNumber)
  | read (device : Device) (block : BlockNumber) (meanwhile : List StoreCall)
  | lookup (block : BlockNumber) (size : Nat)
  | evict (block : BlockNumber)
  | detach (block : BlockNumber) (size : Nat)

/-- What callers get. -/
inductive StoreEvent where
  /-- The buffer of a block in the cache. -/
  | returned (block : BlockNumber) (id : BufferId)
  /-- The buffer of a block that is dropped, if it was in the cache. -/
  | dropped (block : BlockNumber) (evicted : Option BufferId)
  /-- A buffer that is not in the cache. -/
  | detached (id : BufferId)
  deriving DecidableEq, Repr

/-- A store, with everything callers got so far. -/
structure StoreRun where
  /-- What callers got, in this order. -/
  log : List StoreEvent
  /-- The store. -/
  store : Store
  deriving DecidableEq

mutual

/-- Carry out a call. -/
def StoreCall.serve (x : StoreRun) : StoreCall → StoreRun
  | .getOrCreate block =>
      match x.store.getOrCreate block with
      | (id, store) => ⟨x.log ++ [.returned block id], store⟩
  | .read device block meanwhile =>
      let log :=
        if x.store.reachesDevice device block then (StoreCall.serveAll x meanwhile).log else x.log
      match x.store.read device block (fun s => (StoreCall.serveAll ⟨x.log, s⟩ meanwhile).store) with
      | (.ok id, store) => ⟨log ++ [.returned block id], store⟩
      | (.error _, store) => ⟨log, store⟩
  | .lookup block size =>
      match x.store.lookup block size with
      | some id => ⟨x.log ++ [.returned block id], x.store⟩
      | none => x
  | .evict block =>
      match x.store.evict block with
      | (evicted, store) => ⟨x.log ++ [.dropped block evicted], store⟩
  | .detach block size =>
      match x.store.detached block size with
      | (id, store) => ⟨x.log ++ [.detached id], store⟩

/-- Carry out some calls. -/
def StoreCall.serveAll (x : StoreRun) : List StoreCall → StoreRun
  | [] => x
  | call :: calls => StoreCall.serveAll (call.serve x) calls

end

namespace Store

/-- What an event may do to a store. -/
structure Yields (s : Store) (event : StoreEvent) (s' : Store) : Prop where
  coherent : s.Coherent → s'.Coherent
  blockSize_eq : s'.blockSize = s.blockSize
  -- No buffer is gone.
  size_le : s.buffers.size ≤ s'.buffers.size
  -- The block of each buffer.
  block_eq : ∀ id, id < s.buffers.size → (s'.get id).block = (s.get id).block
  -- No buffer that was there comes into the cache.
  unhashed : ∀ id, id < s.buffers.size → (s.get id).flags.hashed = false →
    (s'.get id).flags.hashed = false
  -- A block stays in the cache with its buffer, unless it is dropped.
  mapped : ∀ {b id}, (∀ evicted, event ≠ .dropped b evicted) → s.mapped? b = some id →
    s'.mapped? b = some id
  -- The buffer that is handed out is the one in the cache.
  returned : ∀ {b id}, event = .returned b id → s'.mapped? b = some id
  -- The buffer that is dropped is the one that was in the cache.
  dropped : ∀ {b id}, event = .dropped b (some id) → s.mapped? b = some id
  -- A buffer made for somebody does not know of the cache.
  detached : ∀ {id}, event = .detached id →
    id < s'.buffers.size ∧ (s'.get id).flags.hashed = false

theorem yields_insertNew (s : Store) (block : BlockNumber) (data : Bytes) :
    s.Yields (.returned block (s.insertNew block data).1) (s.insertNew block data).2 := by
  have hgrows := grows_insertNew s block data
  refine ⟨fun hs => coherent_insertNew hs block data, hgrows.blockSize_eq, hgrows.size_le,
    fun id hid => congrArg Buffer.block (hgrows.get_eq id hid), fun id hid h => ?_,
    fun _ => hgrows.kept, fun {b id} h => ?_, fun {b id} h => ?_, fun {id} h => ?_⟩
  · rw [hgrows.get_eq id hid]
    exact h
  · rcases StoreEvent.returned.inj h with ⟨rfl, rfl⟩
    rw [mapped?_insertNew, if_pos rfl]
  · exact absurd h (by simp only [reduceCtorEq, not_false_eq_true])
  · exact absurd h (by simp only [reduceCtorEq, not_false_eq_true])

theorem yields_evict (s : Store) (block : BlockNumber) :
    s.Yields (.dropped block (s.evict block).1) (s.evict block).2 := by
  refine ⟨fun hs => coherent_evict hs block, blockSize_evict s block,
    Nat.le_of_eq (size_evict s block).symm, fun id _ => ?_, fun id _ h => ?_,
    fun {b id} hkept hb => ?_, fun {b id} h => ?_, fun {b id} h => ?_, fun {id} h => ?_⟩
  · rcases get_evict s block id with hget | ⟨_, hget⟩
    · rw [hget]
    · rw [hget]
      rfl
  · rcases get_evict s block id with hget | ⟨_, hget⟩
    · rw [hget]
      exact h
    · rw [hget]
      rfl
  · rw [mapped?_evict, if_neg, hb]
    rintro rfl
    exact hkept _ rfl
  · exact absurd h (by simp only [reduceCtorEq, not_false_eq_true])
  · rcases StoreEvent.dropped.inj h with ⟨rfl, hevicted⟩
    rw [← hevicted, evict]
    cases s.mapped? block with
    | none => rfl
    | some other => rfl
  · exact absurd h (by simp only [reduceCtorEq, not_false_eq_true])

theorem yields_detached (s : Store) (block : BlockNumber) (size : Nat) :
    s.Yields (.detached (s.detached block size).1) (s.detached block size).2 := by
  have hextends := extends_detached s block size
  refine ⟨fun hs => hs.extends hextends, rfl, hextends.size_le,
    fun id hid => congrArg Buffer.block (hextends.get_eq id hid), fun id hid h => ?_,
    fun _ hb => hb, fun {b id} h => ?_, fun {b id} h => ?_, fun {id} h => ?_⟩
  · rw [hextends.get_eq id hid]
    exact h
  · exact absurd h (by simp only [reduceCtorEq, not_false_eq_true])
  · exact absurd h (by simp only [reduceCtorEq, not_false_eq_true])
  · have hid : s.buffers.size = id := StoreEvent.detached.inj h
    rw [← hid]
    refine ⟨?_, (hextends.aside _ (Nat.le_refl _)).1⟩
    simp only [detached, add, Array.size_push, Nat.lt_succ_self]

end Store

/-- Somebody got the buffer of a block, and the block was not dropped since. -/
def Outstanding (log : List StoreEvent) (b : BlockNumber) (id : BufferId) : Prop :=
  ∃ before after, log = before ++ .returned b id :: after ∧ ∀ evicted, .dropped b evicted ∉ after

/-- Somebody got the buffer from the cache, as the buffer of a block. -/
def Got (log : List StoreEvent) (b : BlockNumber) (id : BufferId) : Prop :=
  .returned b id ∈ log ∨ .dropped b (some id) ∈ log

-- An event is the last one, or it came before the last one.
theorem concat_eq_append_cons {log before after : List StoreEvent} {event e : StoreEvent}
    (h : log ++ [event] = before ++ e :: after) :
    (after = [] ∧ before = log ∧ e = event) ∨
      ∃ rest, after = rest ++ [event] ∧ log = before ++ e :: rest := by
  rcases List.eq_nil_or_concat after with rfl | ⟨rest, last, rfl⟩
  · rcases List.append_inj' h rfl with ⟨rfl, he⟩
    exact Or.inl ⟨rfl, rfl, (List.cons.inj he).1.symm⟩
  · rw [List.concat_eq_append, ← List.cons_append, ← List.append_assoc] at h
    rcases List.append_inj' h rfl with ⟨rfl, he⟩
    exact Or.inr ⟨rest, by rw [List.concat_eq_append, (List.cons.inj he).1], rfl⟩

theorem outstanding_concat {log : List StoreEvent} {event : StoreEvent} {b : BlockNumber}
    {id : BufferId} (h : Outstanding (log ++ [event]) b id) :
    event = .returned b id ∨ (Outstanding log b id ∧ ∀ evicted, event ≠ .dropped b evicted) := by
  rcases h with ⟨before, after, heq, hafter⟩
  rcases concat_eq_append_cons heq with ⟨_, _, he⟩ | ⟨rest, rfl, hlog⟩
  · exact Or.inl he.symm
  · refine Or.inr ⟨⟨before, rest, hlog, fun evicted hmem => ?_⟩, fun evicted heq => ?_⟩
    · exact hafter evicted (List.mem_append_left _ hmem)
    · exact hafter evicted (heq ▸ List.mem_append_right _ List.mem_cons_self)

namespace StoreRun

/-- The marks of the buffers that callers got are in step with the index. -/
structure InStep (x : StoreRun) : Prop where
  coherent : x.store.Coherent
  -- The buffers that callers got from the cache are buffers of the blocks they asked for.
  got : ∀ {b id}, Got x.log b id → id < x.store.buffers.size ∧ (x.store.get id).block = b
  -- The buffers made for callers do not come into the cache.
  detached : ∀ {id}, .detached id ∈ x.log →
    id < x.store.buffers.size ∧ (x.store.get id).flags.hashed = false
  -- A buffer that was not dropped since it was handed out is in the cache.
  outstanding : ∀ {b id}, Outstanding x.log b id → x.store.mapped? b = some id
  -- Whoever asks for its block gets the same buffer.
  again : ∀ {before after b id id'}, x.log = before ++ .returned b id' :: after →
    Outstanding before b id → id' = id

variable {x : StoreRun}

/-- One event keeps the marks in step. -/
theorem InStep.yields (hx : x.InStep) {event : StoreEvent} {store : Store}
    (h : x.store.Yields event store) : InStep ⟨x.log ++ [event], store⟩ := by
  have hcoherent := h.coherent hx.coherent
  have hold : ∀ {b id}, id < x.store.buffers.size ∧ (x.store.get id).block = b →
      id < store.buffers.size ∧ (store.get id).block = b :=
    fun ⟨hid, hb⟩ => ⟨Nat.lt_of_lt_of_le hid h.size_le, (h.block_eq _ hid).trans hb⟩
  refine ⟨hcoherent, fun {b id} hgot => ?_, fun {id} hid => ?_, fun {b id} hout => ?_,
    fun {before after b id id'} hlog hout => ?_⟩
  · rcases hgot with hmem | hmem
    · rcases List.mem_append.mp hmem with hmem | hmem
      · exact hold (hx.got (Or.inl hmem))
      · have hb := h.returned (List.mem_singleton.mp hmem).symm
        exact ⟨hcoherent.lt_size hb, hcoherent.block_eq hb⟩
    · rcases List.mem_append.mp hmem with hmem | hmem
      · exact hold (hx.got (Or.inr hmem))
      · have hb := h.dropped (List.mem_singleton.mp hmem).symm
        exact hold ⟨hx.coherent.lt_size hb, hx.coherent.block_eq hb⟩
  · rcases List.mem_append.mp hid with hmem | hmem
    · rcases hx.detached hmem with ⟨hlt, hhashed⟩
      exact ⟨Nat.lt_of_lt_of_le hlt h.size_le, h.unhashed id hlt hhashed⟩
    · exact h.detached (List.mem_singleton.mp hmem).symm
  · rcases outstanding_concat hout with heq | ⟨hout, hkept⟩
    · exact h.returned heq
    · exact h.mapped hkept (hx.outstanding hout)
  · rcases concat_eq_append_cons hlog with ⟨_, rfl, heq⟩ | ⟨rest, _, hlog⟩
    · -- The buffer that is in the cache now was in the cache before.
      have hnew := h.returned heq.symm
      rw [h.mapped (fun evicted => heq ▸ StoreEvent.noConfusion) (hx.outstanding hout)] at hnew
      exact (Option.some.inj hnew).symm
    · exact hx.again hlog hout

/-- Hand out the buffer of a block, with some contents if it was not in the cache. -/
def hand (x : StoreRun) (block : BlockNumber) (data : Bytes) : StoreRun :=
  ⟨x.log ++ [.returned block (x.store.insertNew block data).1], (x.store.insertNew block data).2⟩

/-- Drop a block. -/
def drop (x : StoreRun) (block : BlockNumber) : StoreRun :=
  ⟨x.log ++ [.dropped block (x.store.evict block).1], (x.store.evict block).2⟩

/-- Make a buffer that is not in the cache. -/
def detach (x : StoreRun) (block : BlockNumber) (size : Nat) : StoreRun :=
  ⟨x.log ++ [.detached (x.store.detached block size).1], (x.store.detached block size).2⟩

/-- A property that the three things a call can come to keep. -/
structure Kept (P : StoreRun → Prop) : Prop where
  hand : ∀ {x} block data, P x → P (x.hand block data)
  drop : ∀ {x} block, P x → P (x.drop block)
  detach : ∀ {x} block size, P x → P (x.detach block size)

/-- All three keep the marks in step. -/
theorem kept_inStep : Kept InStep where
  hand block data hx := hx.yields (Store.yields_insertNew _ block data)
  drop block hx := hx.yields (Store.yields_evict _ block)
  detach block size hx := hx.yields (Store.yields_detached _ block size)

-- None of them changes the size of the buffers in the cache.
theorem kept_blockSize (size : BlockSize) : Kept fun x => x.store.blockSize = size where
  hand block data hx := (Store.yields_insertNew _ block data).blockSize_eq.trans hx
  drop block hx := (Store.yields_evict _ block).blockSize_eq.trans hx
  detach block size hx := (Store.yields_detached _ block size).blockSize_eq.trans hx

-- Handing out a buffer that is in the cache changes nothing.
theorem hand_of_mapped {block : BlockNumber} {id : BufferId} (h : x.store.mapped? block = some id)
    (data : Bytes) : x.hand block data = ⟨x.log ++ [.returned block id], x.store⟩ := by
  simp only [hand, Store.insertNew, h]

end StoreRun

namespace StoreCall

/-- A read comes to handing out a buffer at its start or its end, or to nothing. -/
theorem serve_read (x : StoreRun) (device : Device) (block : BlockNumber)
    (meanwhile : List StoreCall) :
    let y := serveAll x meanwhile
    let z := serve x (.read device block meanwhile)
    z = x ∨ z = y ∨ z = x.hand block [] ∨ ∃ data, z = y.hand block data := by
  intro y z
  have hz : z = serve x (.read device block meanwhile) := rfl
  rw [serve] at hz
  rcases x.store.read_outcomes device block (fun s => (serveAll ⟨x.log, s⟩ meanwhile).store) with
    ⟨id, hb, hreaches, hread⟩ | ⟨e, _, hreaches, hread⟩ | ⟨e, _, hreaches, hread⟩ |
    ⟨data, _, hreaches, hread⟩
  · rw [x.hand_of_mapped hb, hz, hread, hreaches]
    exact Or.inr (Or.inr (Or.inl rfl))
  · rw [hz, hread, hreaches]
    exact Or.inl rfl
  · rw [hz, hread, hreaches]
    exact Or.inr (Or.inl rfl)
  · rw [hz, hread, hreaches]
    exact Or.inr (Or.inr (Or.inr ⟨data, rfl⟩))

mutual

/-- What the three things a call can come to keep holds after calls. -/
theorem serve_kept {P : StoreRun → Prop} (hP : StoreRun.Kept P) {x : StoreRun} (hx : P x)
    (call : StoreCall) : P (call.serve x) := by
  -- The induction is on the calls, and for a read also on those it waits for.
  cases call with
  | getOrCreate block => exact hP.hand block _ hx
  | read device block meanwhile =>
      have hy := serveAll_kept hP hx meanwhile
      rcases serve_read x device block meanwhile with h | h | h | ⟨data, h⟩
      · rw [h]
        exact hx
      · rw [h]
        exact hy
      · rw [h]
        exact hP.hand block [] hx
      · rw [h]
        exact hP.hand block data hy
  | lookup block size =>
      rw [serve]
      cases hlookup : x.store.lookup block size with
      | none => exact hx
      | some id =>
          have h := hP.hand block [] hx
          rw [StoreRun.hand_of_mapped (Store.mapped?_of_lookup hlookup)] at h
          exact h
  | evict block => exact hP.drop block hx
  | detach block size => exact hP.detach block size hx

theorem serveAll_kept {P : StoreRun → Prop} (hP : StoreRun.Kept P) {x : StoreRun} (hx : P x)
    (calls : List StoreCall) : P (serveAll x calls) := by
  cases calls with
  | nil => exact hx
  | cons call calls => exact serveAll_kept hP (serve_kept hP hx call) calls

end

end StoreCall

/-- What the next call on the store of a cache comes to, whatever others do during a read. -/
structure Store.Answers (s : Store) (n : Nat) : Prop where
  -- Who asks for a block gets the buffer that the cache maps it to.
  getOrCreate : ∀ block, (s.getOrCreate block).2.mapped? block = some (s.getOrCreate block).1
  lookup : ∀ {block size id}, s.lookup block size = some id → s.mapped? block = some id
  read : ∀ {device block during id}, (s.read device block during).1 = .ok id →
    (s.read device block during).2.mapped? block = some id
  -- A block that is not in the cache, and that nobody puts there meanwhile, is read.
  read_miss : ∀ {device block during data}, s.mapped? block = none → device.blockSize = n →
    device.read block = .ok data → (during s).mapped? block = none →
    ∃ id s', s.read device block during = (.ok id, s') ∧ (s'.get id).data = data
  -- A read that fails leaves the store to what others did.
  read_error : ∀ {device block during e}, (s.read device block during).1 = .error e →
    (s.read device block during).2 = if s.reachesDevice device block then during s else s

theorem Store.answers (s : Store) : s.Answers s.blockSize.bytes := by
  refine ⟨fun block => ?_, mapped?_of_lookup, fun {device block during id} h => ?_,
    fun {device block during data} hb hsize hdata hmeanwhile => ?_,
    fun {device block during e} h => ?_⟩
  · rw [getOrCreate, mapped?_insertNew, if_pos rfl]
  · rcases s.read_outcomes device block during with
      ⟨id', hb, _, hread⟩ | ⟨e, _, _, hread⟩ | ⟨e, _, _, hread⟩ | ⟨data, _, _, hread⟩
    · rw [hread, Except.ok.injEq] at h
      rw [hread, hb, h]
    · rw [hread] at h
      exact absurd h (by simp only [reduceCtorEq, not_false_eq_true])
    · rw [hread] at h
      exact absurd h (by simp only [reduceCtorEq, not_false_eq_true])
    · rw [hread, Except.ok.injEq] at h
      rw [hread, mapped?_insertNew, if_pos rfl, h]
  · rcases s.read_outcomes device block during with
      ⟨id', hb', _, _⟩ | ⟨e, hne, _, _⟩ | ⟨e, he, _, _⟩ | ⟨data', hdata', _, hread⟩
    · rw [hb] at hb'
      exact absurd hb' (by simp only [reduceCtorEq, not_false_eq_true])
    · exact absurd hsize hne
    · rw [hdata] at he
      exact absurd he (by simp only [reduceCtorEq, not_false_eq_true])
    · rw [hdata, Except.ok.injEq] at hdata'
      rw [← hdata'] at hread
      refine ⟨_, _, hread, ?_⟩
      rcases insertNew_cases (during s) block data with
        ⟨id, hid, _⟩ | ⟨_, s', heq, _, _, hnew, _⟩
      · rw [hmeanwhile] at hid
        exact absurd hid (by simp only [reduceCtorEq, not_false_eq_true])
      · rw [heq, hnew]
        rfl
  · rcases s.read_outcomes device block during with
      ⟨id', _, _, hread⟩ | ⟨e', _, hreaches, hread⟩ | ⟨e', _, hreaches, hread⟩ |
      ⟨data, _, _, hread⟩
    · rw [hread] at h
      exact absurd h (by simp only [reduceCtorEq, not_false_eq_true])
    · rw [hread, hreaches]
      rfl
    · rw [hread, hreaches]
      rfl
    · rw [hread] at h
      exact absurd h (by simp only [reduceCtorEq, not_false_eq_true])

/-- What callers of a cache with blocks of `n` bytes can rely on. -/
structure StoreRun.Faithful (x : StoreRun) (n : Nat) : Prop where
  -- The buffers in the cache are buffers of their blocks.
  mapped : ∀ {b id}, x.store.mapped? b = some id →
    (x.store.get id).block = b ∧ (x.store.get id).size = n
  -- The hashed mark says whether the cache has a buffer.
  hashed_iff : ∀ id, (x.store.get id).flags.hashed = true ↔ ∃ b, x.store.mapped? b = some id
  -- For a buffer that came from the cache it says whether it is still the one of its block.
  got : ∀ {b id}, Got x.log b id →
    ((x.store.get id).flags.hashed = true ↔ x.store.mapped? b = some id)
  -- A buffer that did not come from the cache never gets there.
  detached : ∀ {id}, .detached id ∈ x.log →
    (x.store.get id).flags.hashed = false ∧ ∀ b, x.store.mapped? b ≠ some id
  -- A buffer that was handed out stays in the cache until it is dropped.
  outstanding : ∀ {b id}, Outstanding x.log b id → x.store.mapped? b = some id
  -- Until then it is handed out again.
  again : ∀ {before after b id id'}, x.log = before ++ .returned b id' :: after →
    Outstanding before b id → id' = id

theorem StoreRun.InStep.faithful {x : StoreRun} (hx : x.InStep) :
    x.Faithful x.store.blockSize.bytes where
  mapped hb := ⟨hx.coherent.block_eq hb, hx.coherent.bytes_eq hb⟩
  hashed_iff _ := ⟨fun h => ⟨_, hx.coherent.mapped h⟩, fun ⟨_, hb⟩ => hx.coherent.hashed hb⟩
  got hgot := ⟨fun h => (hx.got hgot).2 ▸ hx.coherent.mapped h, hx.coherent.hashed⟩
  detached {id} hid := by
    have hhashed := (hx.detached hid).2
    refine ⟨hhashed, fun b hb => ?_⟩
    rw [hx.coherent.hashed hb] at hhashed
    exact absurd hhashed (by simp only [Bool.true_eq_false, not_false_eq_true])
  outstanding := hx.outstanding
  again := hx.again

/-- Whatever calls come to a new cache, in whatever order and during whatever reads, the
    hashed marks tell which buffers are in the cache, and a block has one buffer there
    until it is dropped. -/
theorem handouts_in_step {n : Nat} {store : Store} (h : Store.create n = .ok store)
    (calls : List StoreCall) :
    let x := StoreCall.serveAll ⟨[], store⟩ calls
    x.Faithful n ∧ x.store.Answers n := by
  intro x
  rcases Store.coherent_create h with ⟨hcoherent, _, hbytes⟩
  have hnil : ∀ (before : List StoreEvent) event after, [] ≠ before ++ event :: after :=
    fun before _ _ => List.ne_nil_of_mem (List.mem_append_right before List.mem_cons_self) |>.symm
  have hstart : StoreRun.InStep ⟨[], store⟩ := by
    refine ⟨hcoherent, fun hgot => ?_, fun hid => ?_, fun hout => ?_, fun hlog => ?_⟩
    · exact hgot.elim (absurd · List.not_mem_nil) (absurd · List.not_mem_nil)
    · exact absurd hid List.not_mem_nil
    · rcases hout with ⟨before, after, hlog, _⟩
      exact absurd hlog (hnil before _ after)
    · exact absurd hlog (hnil _ _ _)
  have hx : x.InStep := StoreCall.serveAll_kept StoreRun.kept_inStep hstart calls
  have hsize : x.store.blockSize = store.blockSize :=
    StoreCall.serveAll_kept (StoreRun.kept_blockSize store.blockSize) rfl calls
  have hn : x.store.blockSize.bytes = n := by rw [hsize, hbytes]
  exact hn ▸ ⟨hx.faithful, x.store.answers⟩

/-- A disk with two blocks. -/
def twoBlockDisk : Device := ⟨1024, #[Bytes.zeros 1024, List.replicate 1024 90], 0, false⟩

/-- Somebody puts a block into the cache while another one reads it. Then it is dropped, a
    buffer is made outside the cache, and the block is read again, first from a disk with
    other blocks. -/
def racedCalls : List StoreCall :=
  [.read twoBlockDisk ⟨1⟩ [.getOrCreate ⟨1⟩], .lookup ⟨1⟩ 1024, .evict ⟨1⟩, .detach ⟨1⟩ 1024,
    .read { twoBlockDisk with blockSize := 512 } ⟨1⟩ [], .read twoBlockDisk ⟨1⟩ []]

-- All handles are told apart by their marks in the end.
theorem handouts_in_step_raced :
    let cache : Store := ⟨⟨1024, by decide⟩, [], #[]⟩
    let x := StoreCall.serveAll ⟨[], cache⟩ racedCalls
    Store.create 1024 = .ok cache ∧
      x.log = [.returned ⟨1⟩ 0, .returned ⟨1⟩ 0, .returned ⟨1⟩ 0, .dropped ⟨1⟩ (some 0),
        .detached 1, .returned ⟨1⟩ 2] ∧
      x.store.mapped? ⟨1⟩ = some 2 ∧ (x.store.get 2).flags.hashed = true ∧
      (x.store.get 0).flags.hashed = false ∧ (x.store.get 1).flags.hashed = false ∧
      x.store.Answers 1024 := by
  intro cache x
  have hcreate : Store.create 1024 = .ok cache := rfl
  have hlog : x.log = [.returned ⟨1⟩ 0, .returned ⟨1⟩ 0, .returned ⟨1⟩ 0, .dropped ⟨1⟩ (some 0),
      .detached 1, .returned ⟨1⟩ 2] := by decide
  have hrun : x.Faithful 1024 ∧ x.store.Answers 1024 := handouts_in_step hcreate racedCalls
  have hmapped : x.store.mapped? ⟨1⟩ = some 2 := by
    refine hrun.1.outstanding ⟨[.returned ⟨1⟩ 0, .returned ⟨1⟩ 0, .returned ⟨1⟩ 0,
      .dropped ⟨1⟩ (some 0), .detached 1], [], hlog, fun _ => List.not_mem_nil⟩
  have hfirst := @StoreRun.Faithful.got x 1024 hrun.1 ⟨1⟩ 0 (Or.inl (by rw [hlog]; decide))
  rw [hmapped] at hfirst
  refine ⟨hcreate, hlog, hmapped, ?_, ?_, ?_, hrun.2⟩
  · exact (hrun.1.hashed_iff 2).mpr ⟨⟨1⟩, hmapped⟩
  · exact Bool.eq_false_iff.mpr (mt hfirst.mp (by decide))
  · exact (hrun.1.detached (by rw [hlog]; decide)).1

end BlockJournal
