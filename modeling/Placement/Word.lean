/-!
How many values a word has, for the widths that matter here.

They are numerals, so that arithmetic on them needs no powers.
-/

namespace Placement.Word

abbrev values16 : Nat := 65536

abbrev values32 : Nat := 4294967296

/-- The number of values of 52 bits, the fraction of a binary64 number. -/
abbrev values52 : Nat := 4503599627370496

abbrev values63 : Nat := 9223372036854775808

abbrev values64 : Nat := 18446744073709551616

example : values64 = 2 * values63 ∧ values63 = 2048 * values52 ∧ values32 = values16 * values16 := by decide

end Placement.Word
