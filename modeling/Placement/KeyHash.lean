import Placement.Binary64
import Placement.Text.Utf8

/-!
The index score of a key: 32-bit FNV-1a over the bytes of the key, read as a signed number.

Any function of the key would do for scans; this one spreads over both signs. Collisions are allowed.
-/

namespace Placement.KeyHash

def basis : UInt32 := 0x811c9dc5

def factor : UInt32 := 0x01000193

/-- Takes one byte into the hash: exclusive or, then a product modulo 2³². -/
def absorb (hash : UInt32) (byte : UInt8) : UInt32 := (hash ^^^ byte.toUInt32) * factor

def fnv1a (bytes : List UInt8) : UInt32 := bytes.foldl absorb basis

/-- The index score of a key, as an integer in [-2³¹, 2³¹). -/
def indexScore (key : String) : Int := (fnv1a (Utf8.encode key)).toInt32.toInt

def score (key : String) : Binary64 := .ofInt (indexScore key)

theorem fnv1a_append (x y : List UInt8) : fnv1a (x ++ y) = y.foldl absorb (fnv1a x) :=
  List.foldl_append ..

example : indexScore "user1" = -1602409223 := by decide +kernel

end Placement.KeyHash
