/-!
Blank texts: those without a character outside the Unicode property White_Space.
-/

namespace Placement.Text

def isWhiteSpace (c : Char) : Bool :=
  let n := c.toNat
  (0x9 ≤ n && n ≤ 0xd) || n == 0x20 || n == 0x85 || n == 0xa0 || n == 0x1680 || (0x2000 ≤ n && n ≤ 0x200a) ||
    n == 0x2028 || n == 0x2029 || n == 0x202f || n == 0x205f || n == 0x3000

def isBlank (s : String) : Bool := s.toList.all isWhiteSpace

def trim (s : String) : String :=
  String.ofList ((s.toList.dropWhile isWhiteSpace).reverse.dropWhile isWhiteSpace).reverse

theorem isBlank_iff_trim (s : String) : isBlank s = true ↔ trim s = "" := by
  have key : ∀ l : List Char, l.all isWhiteSpace = true ↔ l.dropWhile isWhiteSpace = [] := by
    intro l
    induction l with
    | nil => simp
    | cons c r ih => by_cases h : isWhiteSpace c <;> simp_all
  have stop : ∀ l : List Char, (l.dropWhile isWhiteSpace).reverse.dropWhile isWhiteSpace = [] →
      l.dropWhile isWhiteSpace = [] := by
    intro l
    induction l with
    | nil => simp
    | cons c r ih =>
      by_cases h : isWhiteSpace c
      · simpa [List.dropWhile_cons, h] using ih
      · intro hd
        have := (key _).2 hd
        simp [h] at this
  unfold isBlank trim
  rw [key]
  constructor
  · intro h; simp [h]
  · intro h
    have : ((s.toList.dropWhile isWhiteSpace).reverse.dropWhile isWhiteSpace).reverse = [] := by
      simpa using congrArg String.toList h
    exact stop _ (by simpa using this)

/-- What is left of a text has no white space at its ends, so it is not blank unless it is empty. -/
theorem trim_of_isBlank {s : String} (h : isBlank (trim s) = true) : trim s = "" := by
  have key : ∀ l : List Char, (l.dropWhile isWhiteSpace).all isWhiteSpace = true → l.dropWhile isWhiteSpace = [] := by
    intro l
    induction l with
    | nil => simp
    | cons c r ih => by_cases h : isWhiteSpace c <;> simp_all
  unfold isBlank trim at h
  rw [String.toList_ofList, List.all_reverse] at h
  rw [trim, key _ h]
  rfl

end Placement.Text
