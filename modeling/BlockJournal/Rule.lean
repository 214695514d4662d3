import BlockJournal.Error

/-!
# Rules of Use

What callers of the journal promise, and what happens when they do not keep
it.

Breaking a rule is a bug in the caller and no error of the journal, so it has
a type of its own. A debug build stops at once. A release build notes the
violation and lets the caller of `Build.check` decide how to go on, which is
why the check returns whether the rule held.

## Main definitions

* `Violation`: The ways to break a rule.
* `Build`: Debug and release builds.
* `Build.check`: Testing a rule.
* `Stop`: Why an operation came to an end before it was done.
-/

namespace BlockJournal

/-- The ways to break a rule of use. -/
inductive Violation where
  /-- A block was revoked again while its revoke was still standing. -/
  | revokedTwice
  /-- A block was revoked through one buffer while another is known not to be revoked. -/
  | cleanAlias
  /-- A record was still there after it had been cancelled. -/
  | survivedCancel
  /-- A table was torn down with records in it. -/
  | nonEmptyTable
  deriving DecidableEq, Repr

namespace Violation

/-- What a report says of a violation. -/
def rule : Violation → String
  | revokedTwice => "block revoked twice without a cancel"
  | cleanAlias => "revoking a block whose cached alias is known clean"
  | survivedCancel => "revoke record survived cancel"
  | nonEmptyTable => "destroying a non-empty revoke table"

/-- The words a debug build stops with. -/
def message (v : Violation) : String := "journal invariant violated: " ++ v.rule

end Violation

/-- The two ways to build the journal. -/
inductive Build where
  /-- Stop when a rule is broken. -/
  | debug
  /-- Report a broken rule and go on. -/
  | release
  deriving DecidableEq, Repr, Inhabited

/-- Test a rule. The answer is whether it held, unless the build stops on a
    violation. -/
def Build.check (build : Build) (v : Violation) (holds : Bool) : Except Violation Bool :=
  if holds then .ok true
  else
    match build with
    | debug => .error v
    | release => .ok false

/-- Why an operation came to an end before it was done. -/
inductive Stop where
  /-- It failed. -/
  | failed (e : Error)
  /-- The caller broke a rule. -/
  | violated (v : Violation)
  /-- It waits for memory that nobody is going to free. -/
  | stalled
  deriving DecidableEq, Repr

end BlockJournal
