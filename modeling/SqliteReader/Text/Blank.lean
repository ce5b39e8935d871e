/-! Blanks are the characters that the Unicode property White_Space names, and words are
the longest stretches without one. -/

namespace SqliteReader.Text

/-- Closed ranges of code points, 25 in all. -/
def blankRanges : List (Nat × Nat) :=
  [(0x09, 0x0D), (0x20, 0x20), (0x85, 0x85), (0xA0, 0xA0), (0x1680, 0x1680), (0x2000, 0x200A),
   (0x2028, 0x2029), (0x202F, 0x202F), (0x205F, 0x205F), (0x3000, 0x3000)]

def isBlank (character : Char) : Bool :=
  blankRanges.any fun (first, last) => first ≤ character.toNat && character.toNat ≤ last

def trim (text : String) : String :=
  String.ofList ((text.toList.dropWhile isBlank).reverse.dropWhile isBlank).reverse

/-- Continues a split inside a word whose characters so far are given last first. -/
def wordsFrom (word : List Char) : List Char → List (List Char)
  | [] => if word.isEmpty then [] else [word.reverse]
  | character :: rest =>
    if isBlank character then
      if word.isEmpty then wordsFrom [] rest else word.reverse :: wordsFrom [] rest
    else wordsFrom (character :: word) rest

def words (text : String) : List String := (wordsFrom [] text.toList).map String.ofList

end SqliteReader.Text
