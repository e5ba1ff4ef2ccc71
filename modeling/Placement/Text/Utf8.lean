/-!
Texts as bytes.

`Utf8.encode` lists the bytes of a text. `Utf8.symbols` reads any bytes: a well-formed sequence becomes
its character, and a byte that starts none becomes an ill-formed symbol, after which reading goes on with
the next byte. So a reader of symbols can say for itself where an ill-formed byte matters.
-/

namespace Placement.Utf8

def encode (s : String) : List UInt8 := s.toList.flatMap String.utf8EncodeChar

abbrev Symbol := Option Char

def symbolsFrom (bytes : ByteArray) (i : Nat) : List Symbol :=
  if i < bytes.size then
    match bytes.utf8DecodeChar? i with
    | some c => some c :: symbolsFrom bytes (i + c.utf8Size)
    | none => none :: symbolsFrom bytes (i + 1)
  else
    []
termination_by bytes.size - i
decreasing_by
  · have := c.utf8Size_pos; omega
  · omega

def symbols (bytes : ByteArray) : List Symbol := symbolsFrom bytes 0

def decode? (bytes : ByteArray) : Option String := ((symbols bytes).mapM id).map String.ofList

@[simp] theorem encode_append (s t : String) : encode (s ++ t) = encode s ++ encode t := by
  simp [encode]

end Placement.Utf8
