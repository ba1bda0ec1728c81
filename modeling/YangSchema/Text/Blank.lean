/-!
# Blanks

A *blank* is a character with the Unicode property `White_Space`. Blanks separate tokens, and they
are trimmed off the two ends of path steps and numbers.
-/

namespace YangSchema.Text

/-- The 25 characters with the property `White_Space`. -/
def isBlank (c : Char) : Bool :=
  let n := c.toNat
  (9 ≤ n && n ≤ 13) || n == 0x20 || n == 0x85 || n == 0xA0 || n == 0x1680
    || (0x2000 ≤ n && n ≤ 0x200A) || n == 0x2028 || n == 0x2029 || n == 0x202F
    || n == 0x205F || n == 0x3000

/-- Drops the blanks at both ends. -/
def trimChars (cs : List Char) : List Char :=
  ((cs.dropWhile isBlank).reverse.dropWhile isBlank).reverse

/-- Drops the blanks at both ends. -/
def trim (s : String) : String := String.ofList (trimChars s.toList)

example : isBlank ' ' ∧ isBlank '\n' ∧ isBlank '\u00a0' ∧ isBlank 'a' = false := by decide

end YangSchema.Text
