import OpeningHand.Fault
import OpeningHand.Random.ChaCha
import OpeningHand.Random.Picker

/-!
# Seeded generators of indices

A generator is a value: drawing gives the draw and the generator after it. Every index below a bound
is equally likely, because a draw of 64 bits is refused when it lies in the part that would favour
some of them.
-/

namespace OpeningHand

/-- A stream of draws, together with the place reached in it: the number of the next block, and the draws
of the last one that are still to come. -/
structure Generator where
  seed : UInt64
  key : ChaCha.Key
  block : UInt64
  pending : List UInt64
deriving DecidableEq, Repr

namespace Generator

def ofSeed (seed : UInt64) : Generator :=
  ⟨seed, .ofSeed seed, 0, []⟩

/-- The generator of one trial of a batch. Seeds wrap around. -/
def ofTrial (base trial : UInt64) : Generator :=
  ofSeed (base + trial)

def next (generator : Generator) : UInt64 × Generator :=
  match generator.pending with
  | draw :: pending => (draw, { generator with pending })
  | [] =>
    let (draw, pending) := (generator.key.block generator.block).draws
    (draw, { generator with block := generator.block + 1, pending })

/-- The draws before a stream repeats itself: eight from each of `2 ^ 64` blocks. -/
def period : Nat := Nat.pow 2 67

/-- Whether the fraction `product / 2 ^ 64`, for a multiple of `bound`, gives every index the same
number of draws: its lower half must lie below the largest `bound * 2 ^ i` that fits. -/
def accepts (bound product : Nat) : Bool :=
  product % Nat.pow 2 64 < bound * Nat.pow 2 (63 - bound.log2)

/-- An index below a positive bound: draws are taken until one is accepted. When a whole period has
been refused no draw will ever be accepted, and the last one is used as it is. -/
def indexWithin (bound : Nat) : Nat → Generator → Nat × Generator
  | 0, generator =>
    let (draw, generator) := generator.next
    (draw.toNat * bound / Nat.pow 2 64, generator)
  | attempts + 1, generator =>
    let (draw, generator) := generator.next
    let product := draw.toNat * bound
    if accepts bound product then (product / Nat.pow 2 64, generator)
    else indexWithin bound attempts generator

def slot (generator : Generator) (top : Nat) : Nat × Generator :=
  indexWithin (top + 1) period generator

def indexBelow (generator : Generator) : Nat → Except Fault (Nat × Generator)
  | 0 => .error .emptyRange
  | top + 1 => .ok (generator.slot top)

def indicesBelow (generator : Generator) (bound : Nat) : Nat → Except Fault (List Nat × Generator)
  | 0 => .ok ([], generator)
  | times + 1 => do
    let (index, generator) ← generator.indexBelow bound
    let (indices, generator) ← generator.indicesBelow bound times
    return (index :: indices, generator)

theorem indexWithin_lt {bound : Nat} (h : 0 < bound) (attempts : Nat) (generator : Generator) :
    (indexWithin bound attempts generator).1 < bound := by
  have hdraw (draw : UInt64) : draw.toNat * bound / Nat.pow 2 64 < bound := by
    have hlt : draw.toNat * bound < Nat.pow 2 64 * bound := Nat.mul_lt_mul_of_pos_right draw.toNat_lt h
    exact Nat.div_lt_of_lt_mul hlt
  induction attempts generalizing generator with
  | zero => exact hdraw _
  | succ attempts ih =>
    simp only [indexWithin]
    split
    · exact hdraw _
    · exact ih _

@[default_instance]
instance : Picker Generator where
  ofSeed := ofSeed
  slot := slot
  slot_le generator top := Nat.le_of_lt_succ (indexWithin_lt top.succ_pos period generator)

@[simp] theorem seed_ofSeed (seed : UInt64) : (ofSeed seed).seed = seed := rfl

@[simp] theorem seed_ofTrial (base trial : UInt64) : (ofTrial base trial).seed = base + trial := rfl

end Generator

end OpeningHand
