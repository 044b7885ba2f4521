/-
White space, as the Unicode property `White_Space` defines it, and the trimming of a text's
ends. Cells and condition values come from files and keyboards of every kind, so "blank" has to
mean the whole property and not its ASCII part: a number padded with a no-break space is still a
number.

Texts are lists of characters here and in every module that reads one: a scanner's step is then a
step of the list.
-/

namespace TableCalc.Text

-- ========================================================= the property

/-- White space: the 25 characters with the property `White_Space`, by their code points. -/
def isBlank (c : Char) : Bool :=
  let n := c.toNat
  (0x09 ≤ n && n ≤ 0x0D) || n == 0x20 || n == 0x85 || n == 0xA0 || n == 0x1680 ||
    (0x2000 ≤ n && n ≤ 0x200A) || n == 0x2028 || n == 0x2029 || n == 0x202F || n == 0x205F ||
    n == 0x3000

-- ============================================================= trimming

/-- The text without the white space it starts with. -/
def trimStart (s : List Char) : List Char := s.dropWhile isBlank

/-- The text without the white space it ends with. -/
def trimEnd (s : List Char) : List Char := (s.reverse.dropWhile isBlank).reverse

/-- The text without the white space at either end. -/
def trim (s : List Char) : List Char := trimEnd (trimStart s)

end TableCalc.Text
