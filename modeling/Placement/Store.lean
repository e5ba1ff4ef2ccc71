import Placement.Binary64
import Placement.Fault
import Placement.Record

/-!
What a data node can be asked.

A node holds records under keys, and beside them an index: scored entries for keys, kept apart from the
records. `Store.Call` lists the calls and `Store.Call.Answer` what each answers. A `Store` is any state
that answers them; a failing call may still change the state.
-/

namespace Placement

abbrev Score := Binary64

namespace Store

inductive Call
  /-- Puts the fields into the record of the key and answers how many of them are new. -/
  | write (key : String) (fields : Record)
  /-- All fields of the record; none if there is no record. -/
  | fetch (key : String)
  /-- The named fields that the record has. -/
  | fetchFields (key : String) (names : List String)
  /-- Whether there is a record. -/
  | holds (key : String)
  /-- Drops the record and leaves the index alone. -/
  | remove (key : String)
  /-- Gives the key an index entry with the score, in place of an older one. -/
  | indexAdd (score : Score) (key : String)
  /-- The first so many indexed keys from a score upward. -/
  | indexRange (min : Score) (count : Nat)
  /-- Drops the record and the index entry; answers whether both were there. -/
  | removeIndexed (key : String)
  /-- The number of keys the node holds; an index that is not empty counts as one. -/
  | count
  /-- Drops everything. -/
  | flush
  /-- Gives the node up: later calls fail. -/
  | close
deriving DecidableEq, Repr

@[reducible] def Call.Answer : Call → Type
  | write .. => Nat
  | fetch .. => Record
  | fetchFields .. => Record
  | holds .. => Bool
  | remove .. => Unit
  | indexAdd .. => Unit
  | indexRange .. => List String
  | removeIndexed .. => Bool
  | count => Nat
  | flush => Unit
  | close => Unit

end Store

/-- States that answer the calls of a data node. -/
class Store (ν : Type) where
  perform : (c : Store.Call) → ν → Except Fault c.Answer × ν

end Placement
