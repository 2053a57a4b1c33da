/-!
# Splitting texts

A text is cut at every mark. The parts never hold a mark, and there is one part more than there are
marks.
-/

namespace Bindery.Text

/-- The parts of a text between its marks, empty ones included. -/
def split (isMark : Char → Bool) : List Char → List (List Char)
  | [] => [[]]
  | c :: rest =>
    if isMark c then [] :: split isMark rest
    else
      match split isMark rest with
      | [] => [[c]]
      | part :: parts => (c :: part) :: parts

end Bindery.Text
