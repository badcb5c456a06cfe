/-! Blank characters, trimming and the words of a line. Blank is the White_Space property of Unicode. -/
namespace PixelMachine

/-- The White_Space characters. -/
def isBlank (c : Char) : Bool :=
  let n := c.toNat
  (9 ≤ n && n ≤ 13) || n == 0x20 || n == 0x85 || n == 0xA0 || n == 0x1680 || (0x2000 ≤ n && n ≤ 0x200A)
    || n == 0x2028 || n == 0x2029 || n == 0x202F || n == 0x205F || n == 0x3000

/-- Drops blanks at both ends. -/
def trimBlanks (cs : List Char) : List Char :=
  ((cs.dropWhile isBlank).reverse.dropWhile isBlank).reverse

/-- Puts a finished word in front of the later ones; an empty one is none. -/
def addWord (word : List Char) (rest : List (List Char)) : List (List Char) :=
  if word.isEmpty then rest else word :: rest

/-- The words of a line after the characters of `word`, which are kept in reverse. -/
def wordsFrom (word : List Char) : List Char → List (List Char)
  | [] => addWord word.reverse []
  | c :: cs => if isBlank c then addWord word.reverse (wordsFrom [] cs) else wordsFrom (c :: word) cs

/-- The longest runs of characters that are not blank. -/
def words (cs : List Char) : List (List Char) := wordsFrom [] cs

end PixelMachine
