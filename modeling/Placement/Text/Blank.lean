/-!
# Blank characters

The characters with the Unicode property `White_Space`, and the two things done with them: `trim`
drops them from both ends of a text, and `words` cuts a text into the maximal runs without any.

`wordsFrom_append_blank` says that a blank carries nothing but the cut between two words.
-/

namespace Placement.Text

/-- The code points with the property `White_Space`, as closed ranges. -/
def blankRanges : List (Nat × Nat) :=
  [(0x09, 0x0D), (0x20, 0x20), (0x85, 0x85), (0xA0, 0xA0), (0x1680, 0x1680), (0x2000, 0x200A),
   (0x2028, 0x2029), (0x202F, 0x202F), (0x205F, 0x205F), (0x3000, 0x3000)]

/-- Whether `c` separates words. -/
def isBlank (c : Char) : Bool :=
  blankRanges.any fun (low, high) => low ≤ c.toNat && c.toNat ≤ high

/-- The text without the blanks at either end. -/
def trimChars (cs : List Char) : List Char :=
  ((cs.dropWhile isBlank).reverse.dropWhile isBlank).reverse

def trim (s : String) : String := String.ofList (trimChars s.toList)

/-- Cuts `cs` into words; `word` holds, in reverse, what the word under way has so far. -/
def wordsFrom (word : List Char) : List Char → List (List Char)
  | [] => if word.isEmpty then [] else [word.reverse]
  | c :: cs =>
    if isBlank c then
      if word.isEmpty then wordsFrom [] cs else word.reverse :: wordsFrom [] cs
    else wordsFrom (c :: word) cs

/-- The maximal runs of characters that are not blank, in order. -/
def words (s : String) : List String := (wordsFrom [] s.toList).map String.ofList

/-- A blank ends the word before it, and what stands behind it is cut on its own. -/
theorem wordsFrom_append_blank {b : Char} (hb : isBlank b = true) (word cs ds : List Char) :
    wordsFrom word (cs ++ b :: ds) = wordsFrom word cs ++ wordsFrom [] ds := by
  induction cs generalizing word with
  | nil => cases word <;> simp [wordsFrom, hb]
  | cons c cs ih => by_cases hc : isBlank c = true <;> cases word <;> simp [wordsFrom, hc, ih]

end Placement.Text
