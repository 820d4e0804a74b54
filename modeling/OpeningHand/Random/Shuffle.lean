import OpeningHand.Random.Generator

/-!
# Shuffles

A shuffle walks down from the last slot of a row and swaps each slot with one at or below it. The
slots to swap with are picked first, and the swaps that they stand for do not depend on where the
picks come from.
-/

namespace OpeningHand.Shuffle

variable {α : Type}

/-- Swap slot `top` with the first pick, slot `top - 1` with the second one, and so on down to
slot 1. -/
def swapDown (items : Array α) : Nat → List Nat → Array α
  | top + 1, pick :: picks => swapDown (items.swapIfInBounds (top + 1) pick) top picks
  | _, _ => items

@[simp] theorem swapDown_zero (items : Array α) (picks : List Nat) :
    swapDown items 0 picks = items := by
  cases picks <;> rfl

@[simp] theorem swapDown_nil (items : Array α) (top : Nat) : swapDown items top [] = items := by
  cases top <;> rfl

@[simp] theorem swapDown_succ_cons (items : Array α) (top pick : Nat) (picks : List Nat) :
    swapDown items (top + 1) (pick :: picks) =
      swapDown (items.swapIfInBounds (top + 1) pick) top picks := rfl

def arrange (items : List α) (picks : List Nat) : List α :=
  (swapDown items.toArray (items.length - 1) picks).toList

/-- One pick for each slot from `top` down to 1. -/
def picks {γ : Type} [Picker γ] (source : γ) : Nat → List Nat × γ
  | 0 => ([], source)
  | top + 1 =>
    let (pick, source) := Picker.slot source (top + 1)
    let (rest, source) := picks source top
    (pick :: rest, source)

end OpeningHand.Shuffle

namespace OpeningHand

def Picker.shuffle {γ α : Type} [Picker γ] (source : γ) (items : List α) : List α × γ :=
  let (picks, source) := Shuffle.picks source (items.length - 1)
  (Shuffle.arrange items picks, source)

def Generator.shuffle {α : Type} (generator : Generator) (items : List α) : List α × Generator :=
  Picker.shuffle generator items

end OpeningHand
