import BlockJournal.LogService

/-!
# Scripted Logs

A log service that misbehaves on demand.

A script says which requests for a descriptor are refused, at which call the
journal is aborted, and which descriptor is cut short when it is filed. Apart
from that the log hands out descriptors of one size for the blocks 0, 1, 2 and
so on, writes nothing anywhere, and keeps a list of the calls it got. It shows
how the journal copes with logs that are not a circular log in good health.

## Main definitions

* `Script`: What goes wrong, and when.
* `ScriptedLog`: The log.
* `ScriptedLog.Call`: A call it got.
-/

namespace BlockJournal

/-- What goes wrong, and when. Calls of each kind are counted from zero. -/
structure Script where
  /-- The size of the descriptors. -/
  size : Nat
  /-- The requests that are refused. -/
  deny : List Nat := []
  /-- The request during which the journal is aborted. -/
  abortRequest : Option Nat := none
  /-- The filing during which the journal is aborted. -/
  abortFile : Option Nat := none
  /-- The submission during which the journal is aborted. -/
  abortSubmit : Option Nat := none
  /-- The filing that cuts a descriptor short, and the length that is left. -/
  truncate : Option (Nat × Nat) := none
  deriving DecidableEq, Repr

/-- A call that a scripted log got. -/
inductive ScriptedLog.Call where
  | forget (tid : Tid) (block : BlockNumber)
  | request (block : Option BlockNumber)
  | file (tid : Tid) (block : BlockNumber)
  | submit (block : BlockNumber)
  deriving DecidableEq, Repr

/-- A log that follows a script. -/
structure ScriptedLog where
  /-- The script. -/
  script : Script
  /-- The number of requests so far. -/
  requests : Nat := 0
  /-- The number of filings so far. -/
  filings : Nat := 0
  /-- The number of descriptors handed out. -/
  handedOut : Nat := 0
  /-- The calls since somebody last asked for them, oldest first. -/
  calls : List ScriptedLog.Call := []
  /-- The buffers submitted, oldest first. -/
  submitted : List BufferId := []
  deriving DecidableEq, Repr

namespace ScriptedLog

/-- The calls since somebody last asked, which are then forgotten. -/
def takeCalls (log : ScriptedLog) : List Call × ScriptedLog := (log.calls, { log with calls := [] })

instance : LogService ScriptedLog where
  forget log tid b := ⟨false, { log with calls := log.calls ++ [.forget tid b.block] }, false, []⟩
  request log :=
    let abort := log.script.abortRequest = some log.requests
    if log.requests ∈ log.script.deny then
      ⟨none, { log with requests := log.requests + 1, calls := log.calls ++ [.request none] },
        abort, []⟩
    else
      let block := BlockNumber.ofNat log.handedOut
      ⟨some (block, log.script.size),
        { log with
          requests := log.requests + 1
          handedOut := log.handedOut + 1
          calls := log.calls ++ [.request (some block)] },
        abort, []⟩
  file log tid _ b :=
    let cut :=
      match log.script.truncate with
      | some (n, len) => if n = log.filings then some len else none
      | none => none
    ⟨cut, { log with filings := log.filings + 1, calls := log.calls ++ [.file tid b.block] },
      log.script.abortFile = some log.filings, []⟩
  submit log id b :=
    ⟨(),
      { log with
        calls := log.calls ++ [.submit b.block]
        submitted := log.submitted ++ [id] },
      log.script.abortSubmit = some log.submitted.length, []⟩

end ScriptedLog

end BlockJournal
