import Mathlib.Init

/-!
# Characters of a text

A statement about the characters of a text is decided by going through the text.  There are finitely
many characters, so it could be decided by going through all of them, and where both ways are known
this one is to be taken.
-/

namespace Kroker

instance (priority := 1100) decidableForallMemChar (cs : List Char) (p : Char → Prop)
    [DecidablePred p] : Decidable (∀ c ∈ cs, p c) :=
  List.decidableBAll p cs

end Kroker
