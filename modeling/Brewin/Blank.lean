namespace Brewin

/-- The characters with the White_Space property. -/
def isBlank (c : Char) : Bool :=
  let n := c.toNat
  (0x09 ≤ n && n ≤ 0x0d) || n == 0x20 || n == 0x85 || n == 0xa0 || n == 0x1680 ||
    (0x2000 ≤ n && n ≤ 0x200a) || n == 0x2028 || n == 0x2029 || n == 0x202f || n == 0x205f ||
    n == 0x3000

/-- Drops the longest suffix whose elements all satisfy `p`. -/
def dropEndWhile {α : Type} (p : α → Bool) (xs : List α) : List α :=
  (xs.reverse.dropWhile p).reverse

/-- The text without the blanks at its two ends. -/
def trim (s : String) : String :=
  String.ofList (dropEndWhile isBlank (s.toList.dropWhile isBlank))

end Brewin
