/-!
# Sources of picks

A shuffle picks slots, and does not ask how they are picked. All that it counts on is that a pick comes
whenever one is asked for, and that it is never above its slot.
-/

namespace OpeningHand

/-- Each seed has a source of its own. A pick from `0` to `top` leads on to the next source. -/
class Picker (γ : Type) where
  ofSeed : UInt64 → γ
  slot : γ → Nat → Nat × γ
  slot_le (source : γ) (top : Nat) : (slot source top).1 ≤ top

/-- The source of one trial of a batch. Seeds wrap around. -/
def Picker.ofTrial {γ : Type} [Picker γ] (base trial : UInt64) : γ :=
  ofSeed (base + trial)

end OpeningHand
