/-!
# Letters

Case of the ASCII letters. Two characters outside ASCII fold to an ASCII letter: the long s to `s`
and the kelvin sign to `k`.
-/

namespace GardenMap.Text

/-- The ASCII letter a character folds to, or the character itself. -/
def foldLetter (c : Char) : Char :=
  if c = '\u017F' then 's' else if c = '\u212A' then 'k' else c.toLower

def lower (s : List Char) : List Char := s.map Char.toLower

def upper (s : List Char) : List Char := s.map Char.toUpper

/-- Whether text spells a lower-case keyword, case folded. -/
def spells (keyword : String) (s : List Char) : Bool := s.map foldLetter == keyword.toList

/-- Whether a character folds to one of `a` to `z`. -/
def isLetter (c : Char) : Bool := (foldLetter c).isLower

end GardenMap.Text
