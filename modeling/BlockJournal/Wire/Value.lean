/-!
# Wire Values

The values that settings and counters are written as.

A value is what a configuration file or a message holds before anybody has
looked at its meaning: nothing, a truth value, a number, a text, a list, or an
object with named fields. Whole numbers are told from other numbers, since no
field of the journal takes a fraction.

A structure may be written as an object, whose fields are found by name, or as
a list, whose fields come in the order of their declaration. `Value.fields`
takes either apart into the fields that are there and the ones that are not.

## Main definitions

* `Value`: The values.
* `Value.fields`: The fields of a structure.
* `Value.tagged`: The tag of a structure that has one, and the rest of it.
* `Value.variant`: The name of an alternative without fields.
-/

namespace BlockJournal.Wire

/-- A value as it is written. -/
inductive Value where
  | null
  | bool (b : Bool)
  /-- A whole number. -/
  | int (n : Int)
  /-- A number that was not written as a whole one. -/
  | fraction
  | text (s : String)
  | list (items : List Value)
  | object (fields : List (String × Value))
  deriving Repr, Inhabited

namespace Value

/-- A natural number below a bound. -/
def natBelow (bound : Nat) : Value → Option Nat
  | int n => if 0 ≤ n ∧ n < bound then some n.toNat else none
  | _ => none

/-- A whole number as it is written. -/
def ofNat (n : Nat) : Value := .int n

/-- A 32-bit word. -/
def word32? (v : Value) : Option UInt32 := (v.natBelow UInt32.size).map UInt32.ofNat

/-- A 64-bit word. -/
def word64? (v : Value) : Option UInt64 := (v.natBelow UInt64.size).map UInt64.ofNat

/-- A truth value. -/
def bool? : Value → Option Bool
  | bool b => some b
  | _ => none

/-- The fields of a structure with the given names, each if it is there. Fields of
    an object that have other names are ignored; a list that is too long is refused. -/
def fields (names : List String) : Value → Option (List (Option Value))
  | object entries => some (names.map fun name => entries.lookup name)
  | list items =>
      if items.length ≤ names.length then
        some (items.map some ++ List.replicate (names.length - items.length) none)
      else none
  | _ => none

/-- The tag of a structure that has one under the given name, and the rest of it.
    In a list the tag comes first. -/
def tagged (tag : String) : Value → Option (String × Value)
  | object entries =>
      match entries.lookup tag with
      | some (text name) => some (name, object entries)
      | _ => none
  | list (text name :: rest) => some (name, list rest)
  | _ => none

/-- The name of an alternative without fields: a text, or the name of the only field
    of an object, which must be null. -/
def variant : Value → Option String
  | text name => some name
  | object [(name, null)] => some name
  | _ => none

end Value

end BlockJournal.Wire
