import Placement.Decimal.Numeral
import Placement.Record
import Placement.Text.Utf8
import Placement.Word

/-!
What the replies of a server say.

A client library turns each reply into an answer of the kind that is asked for, or says why it cannot. How it does
that is its own affair: a node is given its `Readers` and goes by what they say. Those of the usual library,
`Readers.usual`, take an error anywhere in a reply for the whole, numbers in digits for numbers, and nothing for an
empty list.
-/

namespace Placement.Store.Redis

inductive Reply
  | int (i : Int)
  | status (words : String)
  | error (words : String)
  | nil
  | bulk (bytes : ByteArray)
  | array (items : List Reply)

/-- Replies taken for answers, or why they cannot be. -/
structure Readers where
  done : Reply → Except String Unit
  count : Reply → Except String Nat
  truth : Reply → Except String Bool
  texts : Reply → Except String (List String)
  /-- Texts of which some may be missing. -/
  values : Reply → Except String (List (Option String))
  record : Reply → Except String Record
  /-- What a transaction of two counting commands did; nothing if it was void. -/
  counts? : Reply → Except String (Option (Nat × Nat))

namespace Reply

mutual

def fault? : Reply → Option String
  | error words => some words
  | array items => faultIn? items
  | _ => none

def faultIn? : List Reply → Option String
  | [] => none
  | r :: rest => r.fault?.or (faultIn? rest)

end

variable {α : Type}

def unlessError (read : Reply → Except String α) (r : Reply) : Except String α :=
  match r.fault? with
  | some words => .error words
  | none => read r

def unlike : String := "response was of incompatible type"

def spelled? : Reply → Option ByteArray
  | bulk bytes => some bytes
  | status words => some words.toUTF8
  | _ => none

def text (r : Reply) : Except String String :=
  match r.spelled?.map Utf8.decode? with
  | some (some t) => .ok t
  | some none => .error "invalid UTF-8"
  | none => .error unlike

/-- A number below 2^64; a negative integer stands for the sixty-four bits it is written with. -/
def count : Reply → Except String Nat
  | int i => .ok (i % (Word.values64 : Int)).toNat
  | r => do
    match (Numeral.written? (← r.text)).filter (decide <| · < Word.values64) with
    | some n => return n
    | none => .error "could not convert from string"

def truth : Reply → Except String Bool
  | int i => .ok (i != 0)
  | nil => .ok false
  | status "OK" => .ok true
  | r => do
    match ← r.text with
    | "1" => return true
    | "0" => return false
    | _ => .error unlike

def text? : Reply → Except String (Option String)
  | nil => .ok none
  | r => r.text.map some

/-- A list; nothing is the empty one, and a bulk a list of itself. -/
def list : Reply → Except String (List Reply)
  | array items => .ok items
  | nil => .ok []
  | bulk bytes => .ok [bulk bytes]
  | _ => .error unlike

def texts (r : Reply) : Except String (List String) := do (← r.list).mapM text

def values (r : Reply) : Except String (List (Option String)) := do (← r.list).mapM text?

def pairs : List Reply → Except String (List (String × String))
  | [] => .ok []
  | name :: value :: rest => do return (← name.text, ← value.text) :: (← pairs rest)
  | [_] => .error unlike

def record : Reply → Except String Record
  | array items => (pairs items).map Dict.ofList
  | nil => .ok Dict.empty
  | _ => .error unlike

def counts? : Reply → Except String (Option (Nat × Nat))
  | nil => .ok none
  | array [a, b] => do return some (← a.count, ← b.count)
  | _ => .error unlike

/-! Replies that say something plain. -/

def ofText (t : String) : Reply := bulk t.toUTF8

def ofTexts (ts : List String) : Reply := array (ts.map ofText)

def ofValues (ts : List (Option String)) : Reply := array (ts.map fun t => (t.map ofText).getD nil)

def ofFields (fields : List (String × String)) : Reply :=
  array (fields.flatMap fun (name, value) => [ofText name, ofText value])

end Reply

def Readers.usual : Readers where
  done := Reply.unlessError fun _ => .ok ()
  count := Reply.unlessError Reply.count
  truth := Reply.unlessError Reply.truth
  texts := Reply.unlessError Reply.texts
  values := Reply.unlessError Reply.values
  record := Reply.unlessError Reply.record
  counts? := Reply.unlessError Reply.counts?

end Placement.Store.Redis
