import BlockJournal.Bytes
import BlockJournal.Block

/-!
# Buffers

The image of a block in memory, and what is known about it.

A buffer keeps five things about its block. Four are plain marks. The fifth is
what is known of the block's revoke: nothing, that there is none, or that there
is one. Only a buffer that knows there is none saves the search of the revoke
table; `Buffer.beginCancel` moves a buffer to that state and says whether the
search was still needed.

The number of bytes that a buffer was made for stays what it is when its
contents are cut short.

## Main definitions

* `RevokeState`: What is known of a revoke.
* `Flags`: What a buffer keeps about its block.
* `FlagBit`: The bits that stand for these in one word.
* `Buffer`: A buffer, with the transitions of its marks.
-/

namespace BlockJournal

/-- What is known of the revoke of a block. -/
inductive RevokeState where
  /-- Nothing is known. -/
  | unknown
  /-- The block is known not to be revoked. -/
  | clean
  /-- The block is known to be revoked. -/
  | revoked
  deriving DecidableEq, Repr, Inhabited

namespace RevokeState

/-- The name of a state. -/
def name : RevokeState → String
  | unknown => "unknown"
  | clean => "clean"
  | revoked => "revoked"

/-- The state as a diagnostic shows it. -/
def describe : RevokeState → String
  | unknown => "Unknown"
  | clean => "Clean"
  | revoked => "Revoked"

/-- What is known after a revoke was taken back elsewhere. -/
def withoutRevoke : RevokeState → RevokeState
  | revoked => clean
  | state => state

end RevokeState

/-- The bits that stand for the marks of a buffer in one word. -/
inductive FlagBit where
  | uptodate
  | dirty
  | hashed
  | logWrite
  | revoked
  | revokeValid
  deriving DecidableEq, Repr

/-- The bit for a mark. -/
def FlagBit.bit : FlagBit → UInt32
  | uptodate => 1
  | dirty => 2
  | hashed => 4
  | logWrite => 8
  | revoked => 16
  | revokeValid => 32

/-- What a buffer keeps about its block. -/
structure Flags where
  /-- The contents are those of the disk, or of a block that is new. -/
  uptodate : Bool := true
  /-- The contents differ from those of the disk. -/
  dirty : Bool := false
  /-- The cache maps the block to this buffer. -/
  hashed : Bool := false
  /-- The buffer is being written to the log. -/
  logWrite : Bool := false
  /-- What is known of the revoke of the block. -/
  revoke : RevokeState := .unknown
  deriving DecidableEq, Repr, Inhabited

namespace Flags

/-- The bits of a mark that may be set. -/
private def bitIf (set : Bool) (b : FlagBit) : UInt32 := if set then b.bit else 0

/-- The marks in one word. What is known of a revoke takes two bits, one for
    whether anything is known and one for the answer. -/
def word (f : Flags) : UInt32 :=
  bitIf f.uptodate .uptodate ||| bitIf f.dirty .dirty ||| bitIf f.hashed .hashed |||
    bitIf f.logWrite .logWrite ||| bitIf (f.revoke == .revoked) .revoked |||
    bitIf (f.revoke != .unknown) .revokeValid

/-- The marks as a diagnostic shows them. -/
def describe (f : Flags) : String :=
  s!"BufferFlags(uptodate={f.uptodate}, dirty={f.dirty}, hashed={f.hashed}, " ++
    s!"jwrite={f.logWrite}, revoke=" ++ f.revoke.describe ++ ")"

end Flags

/-- The image of a block in memory. -/
structure Buffer where
  /-- The block. -/
  block : BlockNumber
  /-- The number of bytes the buffer was made for. -/
  size : Nat
  /-- What the buffer keeps about its block. -/
  flags : Flags
  /-- The contents. -/
  data : Bytes
  deriving DecidableEq, Repr, Inhabited

namespace Buffer

/-- A buffer full of zeros that no cache knows about. -/
def detached (block : BlockNumber) (size : Nat) : Buffer := ⟨block, size, {}, Bytes.zeros size⟩

/-- A buffer that the cache maps its block to. -/
def cached (block : BlockNumber) (size : Nat) (data : Bytes) : Buffer :=
  ⟨block, size, { hashed := true }, data⟩

/-- Note whether the cache maps the block to this buffer. -/
def setHashed (b : Buffer) (hashed : Bool) : Buffer := { b with flags.hashed := hashed }

/-- Note whether the contents differ from those of the disk. -/
def setDirty (b : Buffer) (dirty : Bool) : Buffer := { b with flags.dirty := dirty }

/-- Note whether the buffer is being written to the log. -/
def setLogWrite (b : Buffer) (logWrite : Bool) : Buffer := { b with flags.logWrite := logWrite }

/-- Note what is known of the revoke. -/
def setRevoke (b : Buffer) (state : RevokeState) : Buffer := { b with flags.revoke := state }

/-- The block is known to be revoked. -/
def markRevoked (b : Buffer) : Buffer := b.setRevoke .revoked

/-- The block is known not to be revoked. -/
def markClean (b : Buffer) : Buffer := b.setRevoke .clean

/-- A revoke of the block was taken back through another buffer. -/
def clearRevoked (b : Buffer) : Buffer := b.setRevoke b.flags.revoke.withoutRevoke

/-- Nothing is known of the revoke any more. -/
def forgetRevoke (b : Buffer) : Buffer := b.setRevoke .unknown

/-- The test that a record of the block may exist, as far as the buffer knows. -/
def mayBeRevoked (b : Buffer) : Bool := b.flags.revoke != .clean

/-- Move a buffer to the known-clean state, with the answer whether a record of
    its block may exist. -/
def beginCancel (b : Buffer) : Bool × Buffer := (b.mayBeRevoked, b.markClean)

/-- Replace the contents. -/
def setData (b : Buffer) (data : Bytes) : Buffer := { b with data := data }

/-- Cut the contents short. -/
def truncate (b : Buffer) (len : Nat) : Buffer := b.setData (b.data.take len)

/-- The buffer as a diagnostic shows it. -/
def describe (b : Buffer) : String :=
  "BufferHead \x7b block: " ++ b.block.describe ++ s!", size: {b.size}, flags: " ++
    b.flags.describe ++ ", .. \x7d"

end Buffer

end BlockJournal
