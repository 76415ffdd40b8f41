/-!
# Characters and parts of texts

Texts are read as lists of characters. White space is that of every script, not of ASCII alone.
-/
namespace LatticeGreen.Text

abbrev Chars := List Char

/-! ## Codes -/

/-- How far the codes that stand for no character of their own lie from the characters that are
kept in their place. -/
def halfShift : Nat := 0x100000

/-- The code is one half of a pair of codes that make a character. -/
def isHalf (code : Nat) : Bool := 0xD800 ≤ code && code ≤ 0xDFFF

/-- The character of a code below `0x110000`. A lone half of a pair is kept as a character from the
last plane, which is free for private use. -/
def ofCode (code : Nat) : Char := Char.ofNat (if isHalf code then code + halfShift else code)

/-- The code that a character was made from. -/
def toCode (c : Char) : Nat :=
  if isHalf (c.toNat - halfShift) then c.toNat - halfShift else c.toNat

/-! ## Parts -/

/-- White space: the controls from tab to carriage return, the separators of the information
blocks, and the spaces and line ends of all scripts. -/
def isBlank (c : Char) : Bool :=
  let n := c.toNat
  (9 ≤ n && n ≤ 13) || (28 ≤ n && n ≤ 32) || n == 0x85 || n == 0xA0 || n == 0x1680 ||
    (0x2000 ≤ n && n ≤ 0x200A) || n == 0x2028 || n == 0x2029 || n == 0x202F || n == 0x205F ||
    n == 0x3000

def stripStart (cs : Chars) : Chars := cs.dropWhile isBlank

def stripEnd (cs : Chars) : Chars := (cs.reverse.dropWhile isBlank).reverse

/-- Without white space at both ends. -/
def strip (cs : Chars) : Chars := stripEnd (stripStart cs)

/-- Puts a character in front of the first part. -/
def consFirst (c : Char) : List Chars → List Chars
  | [] => [[c]]
  | part :: parts => (c :: part) :: parts

/-- The parts of a text between the occurrences of a separator, found from the left. The first
argument counts characters of a found separator that are still to be passed over. -/
def splitFrom (sep : Chars) : Nat → Chars → List Chars
  | _, [] => [[]]
  | skip + 1, _ :: cs => splitFrom sep skip cs
  | 0, c :: cs =>
    if sep.isPrefixOf (c :: cs) then [] :: splitFrom sep (sep.length - 1) cs
    else consFirst c (splitFrom sep 0 cs)

def split (sep cs : Chars) : List Chars := splitFrom sep 0 cs

/-- The parts with separators in between. -/
def join (sep : Chars) (parts : List Chars) : Chars := sep.intercalate parts

/-- The first parts of a text and the rest, after `n` separators at most. -/
def splitAtMost (n : Nat) (sep cs : Chars) : List Chars :=
  let parts := split sep cs
  if parts.length ≤ n + 1 then parts else parts.take n ++ [join sep (parts.drop n)]

/-- The number of occurrences of a separator. -/
def count (sep cs : Chars) : Nat := (split sep cs).length - 1

/-- The text without its first and last character. -/
def inner (cs : Chars) : Chars := cs.tail.dropLast

/-- An odd number of backslashes stands at the start. -/
def startsEscaped (cs : Chars) : Bool := (cs.takeWhile (· == '\\')).length % 2 == 1

/-- An odd number of backslashes stands at the end. -/
def endsEscaped (cs : Chars) : Bool := startsEscaped cs.reverse

end LatticeGreen.Text
