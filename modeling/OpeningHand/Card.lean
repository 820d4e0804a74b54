import OpeningHand.Text.Blank
import OpeningHand.Text.Lowercase

/-!
# Cards

A card is known by its name alone. Deck lists and rules may write the name with blanks around it and
with capital letters; neither counts.
-/

namespace OpeningHand

/-- A card is its name, which is usually in lowercase. -/
abbrev Card := String

def Card.ofName (name : List Char) : Card :=
  String.ofList (Text.lowercase (Text.trim name))

@[simp] theorem Card.ofName_nil : Card.ofName [] = "" := rfl

example : Card.ofName "  Sol Ring ".toList = "sol ring" := by decide +kernel

end OpeningHand
