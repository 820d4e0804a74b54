import Mathlib
import OpeningHand.Proofs.DealtHands

/-!
# The orders that a shuffle can give

A shuffle picks a slot for each slot from the last one down to slot 1, and never one above it. The first pick
decides which item comes to the last slot, and all later ones work on the row below that slot alone. So every
order of the items comes from some picks, and from no others if the items are all different.
-/

namespace OpeningHand

namespace Shuffle

variable {α : Type} {top pick : ℕ} {picks : List ℕ}

/-- One pick for each slot from `top` down to 1, none of them above its slot. -/
inductive Picking : ℕ → List ℕ → Prop
  | nil : Picking 0 []
  | cons {top pick : ℕ} {picks : List ℕ} (hpick : pick ≤ top + 1) (hpicks : Picking top picks) :
      Picking (top + 1) (pick :: picks)

/-- The same swaps as in `swapDown`, each of which fails if the row does not have both slots. -/
def checkedSwapDown (items : Array α) : ℕ → List ℕ → Except Fault (Array α)
  | top + 1, pick :: picks =>
    if htop : top + 1 < items.size then
      if hpick : pick < items.size then checkedSwapDown (items.swap (top + 1) pick) top picks
      else .error (.outOfBounds items.size pick)
    else .error (.outOfBounds items.size (top + 1))
  | _, _ => .ok items

theorem picking_zero_iff : Picking 0 picks ↔ picks = [] := by
  constructor
  · rintro ⟨⟩
    rfl
  · rintro rfl
    exact .nil

theorem swapIfInBounds_eq_swap {items : Array α} (htop : top < items.size) (hpick : pick < items.size) :
    items.swapIfInBounds top pick = items.swap top pick := by
  simp [Array.swapIfInBounds_def, htop, hpick]

/-- No swap of a walk that starts in the row has a slot outside of it. -/
theorem Picking.checkedSwapDown_eq (h : Picking top picks) {items : Array α}
    (htop : top ≤ items.size - 1) : checkedSwapDown items top picks = .ok (swapDown items top picks) := by
  induction h generalizing items with
  | nil => simp [checkedSwapDown]
  | @cons top pick picks hpick hpicks ih =>
    have hslot : top + 1 < items.size := by omega
    have hother : pick < items.size := by omega
    rw [checkedSwapDown, dif_pos hslot, dif_pos hother, swapDown_succ_cons,
      swapIfInBounds_eq_swap hslot hother]
    exact ih (by simp; omega)

/-! ### One swap -/

/-- A swap below the end of a row does not touch what stands behind the row. -/
theorem swapIfInBounds_append {front : Array α} (back : Array α) (htop : top < front.size)
    (hpick : pick < front.size) :
    (front ++ back).swapIfInBounds top pick = front.swapIfInBounds top pick ++ back := by
  rw [swapIfInBounds_eq_swap htop hpick, swapIfInBounds_eq_swap (by simp; omega) (by simp; omega)]
  ext slot h h'
  · simp
  · simp only [Array.getElem_swap, Array.getElem_append, Array.size_swap]
    split_ifs <;> first | rfl | omega

theorem Picking.swapDown_append (h : Picking top picks) {front : Array α} (htop : top < front.size)
    (back : Array α) : swapDown (front ++ back) top picks = swapDown front top picks ++ back := by
  induction h generalizing front with
  | nil => simp
  | @cons top pick picks hpick hpicks ih =>
    rw [swapDown_succ_cons, swapDown_succ_cons, swapIfInBounds_append back htop (by omega)]
    exact ih (by simp; omega)

/-- After the first swap the picked item stands in the last slot, with the other ones in front of it. -/
theorem exists_swap_last {items : List α} (hlength : items.length = top + 2) (hpick : pick < items.length) :
    ∃ front : List α, front.length = top + 1 ∧
      items.toArray.swapIfInBounds (top + 1) pick = (front ++ [items[pick]]).toArray := by
  have hslot : top + 1 < items.toArray.size := by simp [hlength]
  have hother : pick < items.toArray.size := by simpa using hpick
  let swapped := items.toArray.swap (top + 1) pick
  have hsize : swapped.toList.length = top + 2 := by simp [swapped, hlength]
  have hne : swapped.toList ≠ [] := List.ne_nil_of_length_pos (by omega)
  have hlast : swapped.toList.getLast hne = items[pick] := by
    simp only [List.getLast_eq_getElem, hsize, Nat.add_succ_sub_one, Array.getElem_toList]
    exact Array.getElem_swap_left
  refine ⟨swapped.toList.dropLast, by simp [hsize], ?_⟩
  rw [swapIfInBounds_eq_swap hslot hother, ← hlast, List.dropLast_append_getLast]

/-- What the first pick does: its item comes to the end, and the other picks arrange the rest. -/
theorem exists_arrange_cons {items : List α} (hlength : items.length = top + 2)
    (hpick : pick < items.length) : ∃ front : List α, front.length = top + 1 ∧
      (front ++ [items[pick]]).Perm items ∧ ∀ picks, Picking top picks →
        arrange items (pick :: picks) = arrange front picks ++ [items[pick]] := by
  obtain ⟨front, hfront, hswap⟩ := exists_swap_last hlength hpick
  refine ⟨front, hfront, ?_, fun picks hpicks => ?_⟩
  · have hperm := swapIfInBounds_perm items.toArray (top + 1) pick
    rw [hswap] at hperm
    exact Array.perm_iff_toList_perm.mp hperm
  · have hindex : items.length - 1 = top + 1 := by omega
    have hsplit : (front ++ [items[pick]]).toArray = front.toArray ++ #[items[pick]] := by simp
    rw [arrange, hindex, swapDown_succ_cons, hswap, hsplit, hpicks.swapDown_append (by simp [hfront]),
      arrange, hfront]
    simp

/-! ### All orders, and each of them once -/

/-- Different picks give different orders, as the last item shows which one was picked first. -/
theorem Picking.eq_of_arrange_eq {items : List α} {other : List ℕ}
    (h : Picking top picks) (hother : Picking top other) (hlength : items.length - 1 = top)
    (hitems : items.Nodup) (heq : arrange items picks = arrange items other) : picks = other := by
  induction h generalizing items other with
  | nil => exact (picking_zero_iff.mp hother).symm
  | @cons top pick picks hpick hpicks ih =>
    cases hother with
    | @cons _ pick' picks' hpick' hpicks' =>
      have hsize : items.length = top + 2 := by omega
      have hslot : pick < items.length := by omega
      have hslot' : pick' < items.length := by omega
      obtain ⟨front, hfront, hperm, harrange⟩ := exists_arrange_cons hsize hslot
      obtain ⟨front', -, -, harrange'⟩ := exists_arrange_cons hsize hslot'
      have hlast : items[pick] = items[pick'] := by
        rw [harrange picks hpicks, harrange' picks' hpicks'] at heq
        simpa using (List.append_inj' heq rfl).2
      obtain rfl : pick = pick' := hitems.getElem_inj_iff.mp hlast
      -- What the same first pick leaves in front is one row, and all different again.
      rw [harrange picks hpicks, harrange picks' hpicks'] at heq
      have hnodup : front.Nodup := (hperm.nodup_iff.mpr hitems).sublist (List.sublist_append_left _ _)
      rw [ih hpicks' (by omega) hnodup (List.append_inj' heq rfl).1]

/-- Every order comes from some picks: the first one has to bring the last item to its place. -/
theorem exists_arrange_eq {items order : List α} (hlength : items.length - 1 = top)
    (horder : order.Perm items) : ∃ picks, Picking top picks ∧ arrange items picks = order := by
  induction top generalizing items order with
  | zero =>
    refine ⟨[], .nil, ?_⟩
    rw [arrange, swapDown_nil]
    match items with
    | [] => simpa using horder
    | [item] => simpa using horder.symm
  | succ top ih =>
    have hsize : items.length = top + 2 := by omega
    obtain rfl | ⟨start, last, rfl⟩ := order.eq_nil_or_concat'
    · simp [← horder.length_eq] at hsize
    · have hlast : last ∈ items := horder.subset (by simp)
      obtain ⟨pick, hpick, rfl⟩ := List.getElem_of_mem hlast
      obtain ⟨front, hfront, hperm, harrange⟩ := exists_arrange_cons hsize hpick
      have hstart : start.Perm front := (List.perm_append_right_iff _).mp (horder.trans hperm.symm)
      obtain ⟨picks, hpicks, rfl⟩ := ih (by omega) hstart
      exact ⟨pick :: picks, .cons (by omega) hpicks, harrange picks hpicks⟩

theorem ncard_perm {items : List α} (h : items.Nodup) :
    {order : List α | order.Perm items}.ncard = items.length.factorial := by
  classical
  have hset : {order : List α | order.Perm items} = (items.permutations.toFinset : Set (List α)) := by
    ext order
    simp
  rw [hset, Set.ncard_coe_finset, List.toFinset_card_of_nodup (List.nodup_permutations items h),
    List.length_permutations]

end Shuffle

/-! ### The picks of a source -/

namespace Shuffle

variable {α γ : Type} [Picker γ]

theorem picking_picks (source : γ) (top : ℕ) : Picking top (picks source top).1 := by
  induction top generalizing source with
  | zero => exact .nil
  | succ top ih => exact .cons (Picker.slot_le source (top + 1)) (ih _)

/-- Whatever the source, no swap of a shuffle has a slot outside of the row. -/
theorem checkedSwapDown_picks (source : γ) (items : List α) :
    checkedSwapDown items.toArray (items.length - 1) (picks source (items.length - 1)).1 =
      .ok (Picker.shuffle source items).1.toArray := by
  rw [(picking_picks source _).checkedSwapDown_eq (by simp)]
  rfl

/-! ### The picks of a generator -/

/-- The picks are drawn one after the other, that for slot `top` as an index below `top + 1`. -/
inductive Drawn : Generator → ℕ → List ℕ → Generator → Prop
  | nil {generator : Generator} : Drawn generator 0 [] generator
  | cons {generator next later : Generator} {top pick : ℕ} {picks : List ℕ}
      (hpick : generator.indexBelow (top + 2) = .ok (pick, next)) (hpicks : Drawn next top picks later) :
      Drawn generator (top + 1) (pick :: picks) later

theorem drawn_picks (generator : Generator) (top : ℕ) :
    Drawn generator top (picks generator top).1 (picks generator top).2 := by
  induction top generalizing generator with
  | zero => exact .nil
  | succ top ih =>
    rw [picks]
    -- The slot stands for very many attempts, none of which has to be made here.
    have hpick : generator.indexBelow (top + 2) = .ok (Picker.slot generator (top + 1)) := rfl
    generalize Picker.slot generator (top + 1) = drawn at hpick ⊢
    obtain ⟨pick, next⟩ := drawn
    exact .cons hpick (ih next)

/-- Whatever is picked, no swap goes outside of the row, and the row keeps its items. If they are all different,
each of their orders comes from exactly one row of picks. A shuffle draws such picks, and goes by them. -/
theorem arrange_bijOn {α : Type} (items : List α) :
    (∀ picks, Picking (items.length - 1) picks →
      checkedSwapDown items.toArray (items.length - 1) picks = .ok (arrange items picks).toArray ∧
        (arrange items picks).Perm items) ∧
    (items.Nodup →
      Set.BijOn (arrange items) {picks | Picking (items.length - 1) picks} {order | order.Perm items} ∧
        {order : List α | order.Perm items}.ncard = items.length.factorial) ∧
    ∀ generator : Generator, ∃ picks later, Drawn generator (items.length - 1) picks later ∧
      Picking (items.length - 1) picks ∧ generator.shuffle items = (arrange items picks, later) := by
  refine ⟨fun picks hpicks => ⟨?_, arrange_perm items picks⟩, fun hitems => ⟨⟨?_, ?_, ?_⟩, ncard_perm hitems⟩,
    fun generator => ⟨_, _, drawn_picks generator _, picking_picks generator _, rfl⟩⟩
  · rw [hpicks.checkedSwapDown_eq (by simp), arrange]
  · exact fun picks _ => arrange_perm items picks
  · exact fun picks hpicks other hother => hpicks.eq_of_arrange_eq hother rfl hitems
  · exact fun order horder => exists_arrange_eq rfl horder

/-- Picking the lowest slot again and again moves every item one slot down, and no other picks do that. -/
theorem arrange_bijOn_three : (["x", "y", "z"].Nodup ∧ Picking 2 [0, 0]) ∧
    checkedSwapDown #["x", "y", "z"] 2 [0, 0] = .ok #["y", "z", "x"] ∧
    ∀ picks, Picking 2 picks → arrange ["x", "y", "z"] picks = ["y", "z", "x"] → picks = [0, 0] := by
  have hitems : ["x", "y", "z"].Nodup := by decide
  have hlowest : Picking 2 [0, 0] := .cons (by decide) (.cons (by decide) .nil)
  obtain ⟨hsafe, hall, -⟩ := arrange_bijOn ["x", "y", "z"]
  refine ⟨⟨hitems, hlowest⟩, (hsafe [0, 0] hlowest).1, fun picks hpicks hturned => ?_⟩
  exact (hall hitems).1.injOn hpicks hlowest hturned

end Shuffle

end OpeningHand
