/-!
# Counts of machine size

Numbers of cards, of hands and of repetitions are kept exact, and must fit into 64 bits wherever they
are read or multiplied.
-/

namespace OpeningHand

/-- One more than the largest count. -/
def countLimit : Nat := UInt64.size

end OpeningHand
