/-!
# Separated parts

A text as the parts between the occurrences of a separator, of which there is always at least one.
-/

namespace FleetHealth.Text

/-- The parts of a text between separators. -/
def splitAt (separator : Char) : List Char → List (List Char)
  | [] => [[]]
  | c :: rest =>
    if c = separator then [] :: splitAt separator rest
    else
      match splitAt separator rest with
      | part :: parts => (c :: part) :: parts
      | [] => [[c]]

/-- What follows the last occurrence of a character, or the whole text if there is none. -/
def afterLast (c : Char) (cs : List Char) : List Char :=
  (cs.reverse.takeWhile (· != c)).reverse

end FleetHealth.Text
