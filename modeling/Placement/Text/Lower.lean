/-!
Texts without regard to the case of Latin letters.
-/

namespace Placement.Text

/-- The small form of a character whose small form is an ASCII letter; these are the ASCII capitals and the
Kelvin sign. Any other character is kept. -/
def lowerChar (c : Char) : Char := if c = '\u212a' then 'k' else c.toLower

def lower (s : String) : String := String.ofList (s.toList.map lowerChar)

end Placement.Text
