import OpeningHand.Proofs.DeclarationSoundness
import OpeningHand.Proofs.ReorderedPatterns

/-!
# The order of operands

Operands are looked for one after the other, each in the cards that the ones before it have left. Two
neighbours can change places if neither has, inside of an absence, a card that the other one may use. An
absence that comes to see fewer cards may begin to hold, so operands cannot be put in any order whatever.
-/

namespace OpeningHand

open Filter

namespace Taking

variable {first second : Taking}

theorem next_nothing (first : Taking) : first.next .nothing = first := by
  funext bag
  change ((first bag).bind fun taken => {taken + 0}) = first bag
  rw [Multiset.bind_singleton]
  simp only [add_zero, Multiset.map_id']

theorem next_zero (first : Taking) : first.next 0 = 0 :=
  funext fun bag => Multiset.bind_zero (first bag)

theorem next_add (first second third : Taking) :
    first.next (second + third) = first.next second + first.next third := by
  funext bag
  change ((first bag).bind fun taken =>
    (second (bag - taken) + third (bag - taken)).map (taken + ·)) = _
  simp only [Multiset.map_add, Multiset.bind_add]
  rfl

theorem next_assoc (first second third : Taking) :
    (first.next second).next third = first.next (second.next third) := by
  funext bag
  simp only [next, Multiset.bind_assoc, Multiset.bind_map, Multiset.map_bind, Multiset.map_map,
    Function.comp_def, tsub_add_eq_tsub_tsub, add_assoc]

variable {used watched others seen : Card → Prop}

/-- What the first one takes leaves the second one as many ways as still fit. -/
theorem Local.next_eq_filter (h : first.Local used watched) (h' : second.Local others seen)
    (hfree : ∀ card, used card → ¬seen card) (bag : Bag) : first.next second bag =
      ((first bag).bind fun taken => (second bag).map (taken + ·)).filter (· ≤ bag) := by
  -- The cards that the second one watches are all still there.
  have hsecond : ∀ taken ∈ first bag, second (bag - taken) = (second bag).filter (· ≤ bag - taken) := by
    intro taken htaken
    apply h'.eq_filter_le (Multiset.sub_le_self bag taken)
    intro card hseen
    have hcard : card ∉ taken := fun hmem => hfree card (h.used_of_mem htaken card hmem) hseen
    rw [Multiset.count_sub, Multiset.count_eq_zero_of_notMem hcard, Nat.sub_zero]
  have hfirst : (first bag).filter (· ≤ bag) = first bag :=
    Multiset.filter_eq_self.mpr fun taken htaken => h.le_bag htaken
  rw [← bind_filter_le, hfirst]
  exact Multiset.bind_congr fun taken htaken => congrArg _ (hsecond taken htaken)

/-- If neither of them watches what the other one uses, it does not matter which one comes first. -/
theorem Local.next_comm (h : first.Local used watched) (h' : second.Local others seen)
    (hfree : ∀ card, used card → ¬seen card) (hfree' : ∀ card, others card → ¬watched card) :
    first.next second = second.next first := by
  funext bag
  rw [h.next_eq_filter h' hfree, h'.next_eq_filter h hfree', Multiset.bind_map_comm]
  simp only [add_comm]

end Taking

/-! ### What a choice of operands takes -/

namespace Pattern

variable {lookup : String → Taking} {children row : List Pattern} {pattern : Pattern} {count size : ℕ}

/-- A choice is a part of the row with as many patterns. -/
theorem mem_choices_iff : row ∈ choices size children ↔ row.Sublist children ∧ row.length = size := by
  induction children generalizing size row with
  | nil =>
    cases size with
    | zero => rw [choices, List.mem_singleton, List.sublist_nil, List.length_eq_zero_iff, and_self]
    | succ size =>
      rw [choices, List.sublist_nil]
      refine iff_of_false List.not_mem_nil ?_
      rintro ⟨rfl, ⟨⟩⟩
  | cons child children ih =>
    cases size with
    | zero =>
      rw [choices, List.mem_singleton, List.length_eq_zero_iff, eq_comm, iff_and_self]
      rintro rfl
      exact List.nil_sublist _
    | succ size =>
      rw [choices, List.mem_append, List.mem_map, ih]
      simp only [ih]
      constructor
      · rintro (⟨rest, ⟨hsublist, hlength⟩, rfl⟩ | ⟨hsublist, hlength⟩)
        · exact ⟨hsublist.cons_cons child, by rw [List.length_cons, hlength]⟩
        · exact ⟨hsublist.cons child, hlength⟩
      · rintro ⟨hsublist, hlength⟩
        cases hsublist with
        | cons _ hsublist => exact .inr ⟨hsublist, hlength⟩
        | cons_cons _ hsublist => exact .inl ⟨_, ⟨hsublist, Nat.succ.inj hlength⟩, rfl⟩

theorem choices_length (children : List Pattern) : choices children.length children = [children] := by
  induction children with
  | nil => rfl
  | cons child children ih =>
    have hnone : choices (children.length + 1) children = [] := by
      rw [List.eq_nil_iff_forall_not_mem]
      intro row hrow
      obtain ⟨hsublist, hlength⟩ := mem_choices_iff.mp hrow
      have hle := hsublist.length_le
      omega
    rw [List.length_cons, choices, ih, hnone]
    rfl

/-- What is taken for a number of the patterns in a row, chosen in any way and in the order of the
row. -/
def takingChoices (lookup : String → Taking) : ℕ → List Pattern → Taking
  | 0, _ => .nothing
  | _ + 1, [] => 0
  | size + 1, child :: children =>
    (child.taking lookup).next (takingChoices lookup size children) +
      takingChoices lookup (size + 1) children

theorem takingChoices_one (children : List Pattern) :
    takingChoices lookup 1 children = takingAny lookup children := by
  induction children with
  | nil => rfl
  | cons child children ih => rw [takingChoices, ih, takingChoices, Taking.next_nothing, takingAny]

theorem takingAny_append (children others : List Pattern) : takingAny lookup (children ++ others) =
    takingAny lookup children + takingAny lookup others := by
  induction children with
  | nil => exact (zero_add _).symm
  | cons child children ih => rw [List.cons_append, takingAny, takingAny, ih, add_assoc]

theorem takingAny_map_cons (child : Pattern) (rows : List (List Pattern)) :
    takingAny lookup ((rows.map (child :: ·)).map all) =
      (child.taking lookup).next (takingAny lookup (rows.map all)) := by
  induction rows with
  | nil => exact (Taking.next_zero _).symm
  | cons row rows ih =>
    simp only [List.map_cons, takingAny, ih, Taking.next_add]
    rfl

theorem takingAny_choices (size : ℕ) (children : List Pattern) :
    takingAny lookup ((choices size children).map all) = takingChoices lookup size children := by
  induction children generalizing size with
  | nil =>
    cases size with
    | zero => exact add_zero _
    | succ size => rfl
  | cons child children ih =>
    cases size with
    | zero => exact add_zero _
    | succ size =>
      rw [choices, List.map_append, takingAny_append, takingAny_map_cons, ih, ih, takingChoices]

theorem takingChoices_length (children : List Pattern) :
    takingChoices lookup children.length children = takingAll lookup children := by
  rw [← takingAny_choices, choices_length]
  exact add_zero _

theorem taking_allOf (children : List Pattern) :
    (allOf children).taking lookup = takingAll lookup children := by
  match children with
  | [] => rfl
  | [child] => exact (Taking.next_nothing _).symm
  | _ :: _ :: _ => rfl

theorem taking_anyOf (h : children ≠ []) : (anyOf children).taking lookup = takingAny lookup children := by
  match children with
  | [] => exact absurd rfl h
  | [child] => exact (add_zero _).symm
  | _ :: _ :: _ => rfl

theorem taking_threshold (h : count ≤ children.length) :
    (threshold count children).taking lookup = takingChoices lookup count children := by
  rw [threshold]
  split
  · next hcount =>
    rw [hcount, takingChoices]
    rfl
  · next hpos =>
    split
    · next hcount =>
      rw [hcount, takingChoices_one, taking_anyOf]
      exact List.ne_nil_of_length_pos (by omega)
    · split
      · next hcount => rw [taking_allOf, hcount, takingChoices_length]
      · exact takingAny_choices count children

/-- The pattern is what a rule looks for that asks for so many of its operands at once: for all of them,
as a row or in the form that leaves out a row of less than two, or for the number that is given. -/
inductive Joins : ℕ → List Pattern → Pattern → Prop
  | row (children : List Pattern) : Joins children.length children (.all children)
  | allOf (children : List Pattern) : Joins children.length children (allOf children)
  | atLeast {count : ℕ} {children : List Pattern} {pattern : Pattern}
      (h : atLeast count children = .ok (some pattern)) : Joins count children pattern

theorem Joins.taking_eq (h : Joins count children pattern) :
    pattern.taking lookup = takingChoices lookup count children := by
  cases h with
  | row => exact (takingChoices_length children).symm
  | allOf => rw [taking_allOf, takingChoices_length]
  | atLeast h =>
    obtain ⟨hle, rfl⟩ := threshold_of_atLeast h
    exact taking_threshold hle

theorem references_allOf_subset (children : List Pattern) :
    (allOf children).references ⊆ rowReferences children := by
  match children with
  | [] => exact List.nil_subset _
  | [child] => exact List.subset_append_left _ _
  | _ :: _ :: _ => exact List.Subset.refl _

theorem references_anyOf_subset (children : List Pattern) :
    (anyOf children).references ⊆ rowReferences children := by
  match children with
  | [] => exact List.nil_subset _
  | [child] => exact List.subset_append_left _ _
  | _ :: _ :: _ => exact List.Subset.refl _

theorem references_threshold_subset (count : ℕ) (children : List Pattern) :
    (threshold count children).references ⊆ rowReferences children := by
  rw [threshold]
  split
  · exact List.nil_subset _
  · split
    · exact references_anyOf_subset children
    · split
      · exact references_allOf_subset children
      · intro name hname
        rw [references, rowReferences_eq_flatMap, List.mem_flatMap] at hname
        obtain ⟨_, hbranch, hname⟩ := hname
        obtain ⟨row, hrow, rfl⟩ := List.mem_map.mp hbranch
        rw [references, rowReferences_eq_flatMap, List.mem_flatMap] at hname
        obtain ⟨child, hchild, hname⟩ := hname
        exact mem_rowReferences ((mem_choices_iff.mp hrow).1.subset hchild) hname

/-- Operands that are put together bring no other names with them. -/
theorem Joins.references_subset (h : Joins count children pattern) :
    pattern.references ⊆ rowReferences children := by
  cases h with
  | row => exact List.Subset.refl _
  | allOf => exact references_allOf_subset children
  | atLeast h =>
    obtain ⟨-, rfl⟩ := threshold_of_atLeast h
    exact references_threshold_subset count children

end Pattern

/-! ### Operands that can change places -/

namespace Context

/-- Neither pattern has, inside of an absence, a card that the other one may use. -/
structure Independent (context : Context) (first second : Pattern) : Prop where
  left : ∀ card, context.Uses first card → ¬context.Watches second card
  right : ∀ card, context.Uses second card → ¬context.Watches first card

/-- The second list comes from the first one by exchanging neighbours that are independent. -/
inductive Rearranged (context : Context) : List Pattern → List Pattern → Prop
  | nil : Rearranged context [] []
  | cons (child : Pattern) {children others : List Pattern} (h : Rearranged context children others) :
      Rearranged context (child :: children) (child :: others)
  | swap {first second : Pattern} (h : context.Independent first second) (children : List Pattern) :
      Rearranged context (first :: second :: children) (second :: first :: children)
  | trans {children middle others : List Pattern} (h : Rearranged context children middle)
      (h' : Rearranged context middle others) : Rearranged context children others

variable {context : Context} {first second pattern : Pattern} {children others : List Pattern}

theorem Independent.symm (h : context.Independent first second) : context.Independent second first :=
  ⟨h.right, h.left⟩

/-- Operands of which each two are independent can be put in any order. -/
theorem Rearranged.of_perm (h : children.Perm others) (hchildren : children.Pairwise context.Independent) :
    context.Rearranged children others := by
  induction h with
  | nil => exact .nil
  | cons child _ ih => exact .cons child (ih hchildren.of_cons)
  | swap first second children =>
    exact .swap (List.rel_of_pairwise_cons hchildren List.mem_cons_self) children
  | trans h _ ih ih' => exact (ih hchildren).trans (ih' (hchildren.perm h Independent.symm))

theorem Affirmative.not_occurs (h : context.Affirmative pattern) {node : Pattern} {inside : Bool}
    (hinside : inside = true) : ¬context.Occurs node inside pattern := by
  intro hnode
  induction hnode with
  | self => cases hinside
  | named hfound _ ih => exact ih ((affirmative_named hfound).mp h) hinside
  | all hchild _ ih => exact ih (affirmative_all.mp h _ hchild) hinside
  | any hchild _ ih => exact ih (affirmative_any.mp h _ hchild) hinside
  | times _ ih => exact ih (affirmative_times.mp h) hinside
  | absent _ _ => exact not_affirmative_absent h

theorem Affirmative.independent (h : context.Affirmative first) (h' : context.Affirmative second) :
    context.Independent first second :=
  ⟨fun _ _ => h'.not_occurs rfl, fun _ _ => h.not_occurs rfl⟩

theorem independent_absent_card {card other : Card} (hne : card ≠ other) :
    context.Independent (.absent (.card card)) (.card other) := by
  constructor
  · intro name huses
    cases huses
  · intro name huses hwatches
    cases huses
    cases hwatches with
    | absent hnode =>
      cases hnode
      exact hne rfl

theorem Independent.next_comm (h : context.Independent first second) (depth : ℕ) :
    (first.taking (context.takingWithin depth)).next (second.taking (context.takingWithin depth)) =
      (second.taking (context.takingWithin depth)).next (first.taking (context.takingWithin depth)) :=
  (context.local_within depth first).next_comm (context.local_within depth second) h.left h.right

theorem Rearranged.of_perm_affirmative (h : children.Perm others)
    (hchildren : ∀ child ∈ children, context.Affirmative child) : context.Rearranged children others :=
  .of_perm h (List.pairwise_of_forall_mem_list fun _ hfirst _ hsecond =>
    (hchildren _ hfirst).independent (hchildren _ hsecond))

theorem Rearranged.takingChoices_eq (h : context.Rearranged children others) (depth size : ℕ) :
    Pattern.takingChoices (context.takingWithin depth) size children =
      Pattern.takingChoices (context.takingWithin depth) size others := by
  induction h generalizing size with
  | nil => rfl
  | cons child _ ih =>
    cases size with
    | zero => rfl
    | succ size => rw [Pattern.takingChoices, Pattern.takingChoices, ih, ih]
  | @swap first second h children =>
    -- Both of the neighbours are chosen, or one of them, or none.
    match size with
    | 0 => rfl
    | 1 =>
      simp only [Pattern.takingChoices]
      rw [add_left_comm]
    | size + 2 =>
      simp only [Pattern.takingChoices, Taking.next_add, ← Taking.next_assoc, h.next_comm depth]
      exact add_add_add_comm _ _ _ _
  | trans _ _ ih ih' => exact (ih size).trans (ih' size)

theorem Rearranged.perm (h : context.Rearranged children others) : children.Perm others := by
  induction h with
  | nil => rfl
  | cons child _ ih => exact ih.cons child
  | swap _ children => exact .swap _ _ children
  | trans _ _ ih ih' => exact ih.trans ih'

theorem Suffices.of_subset {depth : ℕ} {pattern other : Pattern} (h : context.Suffices depth pattern)
    (hsub : other.references ⊆ pattern.references) : context.Suffices depth other := by
  cases depth with
  | zero => exact fun name hname => h name (hsub hname)
  | succ depth => exact fun name hname => h name (hsub hname)

theorem Yields.map_taken {start : Split} {out : List Split} (h : context.Yields pattern [start] out) :
    ∀ᶠ depth in atTop, (out : Multiset Split).map start.taken =
      pattern.taking (context.takingWithin depth) start.remaining.bag := by
  filter_upwards [h.eventually_flow] with depth hflow
  rw [← hflow]
  exact (context.takes_within depth pattern).map_taken fun taken htaken =>
    (context.local_within depth pattern).le_bag htaken

/-- Exchanging independent neighbours changes nothing but the order of what comes of a row of operands,
whether all of them are asked for or a number of them. -/
theorem Rearranged.outcome_perm (h : context.Rearranged children others) {count : ℕ}
    {pattern other : Pattern} (hpattern : Pattern.Joins count children pattern)
    (hother : Pattern.Joins count others other) {start : Split} {out more : List Split}
    (hout : context.Yields pattern [start] out) (hmore : context.Yields other [start] more) :
    (out.map Split.outcome).Perm (more.map Split.outcome) := by
  -- From some depth on, both results are those of the takings at this depth.
  obtain ⟨depth, htaken, htaken'⟩ := (hout.map_taken.and hmore.map_taken).exists
  have hsame : (out.map start.taken).Perm (more.map start.taken) := by
    rw [← Multiset.coe_eq_coe, ← Multiset.map_coe, ← Multiset.map_coe, htaken, htaken',
      hpattern.taking_eq, hother.taking_eq, h.takingChoices_eq depth count]
  exact hout.leads.outcome_perm hmore.leads hsame

/-- A depth that suffices for a row suffices for what is put together of its operands, in any order. -/
theorem Suffices.exists_yields {depth count : ℕ} (h : context.Suffices depth (.all children))
    (hperm : children.Perm others) (hother : Pattern.Joins count others pattern) (start : Split) :
    ∃ out, context.Yields pattern [start] out := by
  have hothers : context.Suffices depth (.all others) := h.reordered (.refl context) (.all hperm)
  have hends : context.Suffices depth pattern := hothers.of_subset hother.references_subset
  exact ⟨_, depth, hends.step_follows.answer [start]⟩

/-- Operands can be put in another order by exchanging independent neighbours; in any order if each two
of them are independent, or if none of them has an absence. Then nothing changes but the order of what
comes of them, whether all of the operands are asked for or a number of them. Evaluation ends before and
after if the references of the operands come to an end. -/
theorem operands_yield_perm
    (h : context.Rearranged children others ∨ children.Perm others ∧
      (children.Pairwise context.Independent ∨ ∀ child ∈ children, context.Affirmative child))
    {count : ℕ} {pattern other : Pattern} (hpattern : Pattern.Joins count children pattern)
    (hother : Pattern.Joins count others other) (start : Split) :
    (∀ out more, context.Yields pattern [start] out → context.Yields other [start] more →
      (out = [] ↔ more = []) ∧ (out.map Split.outcome).Perm (more.map Split.outcome)) ∧
    (context.Acyclic ∨ (∃ depth, context.Suffices depth (.all children)) →
      (∃ out, context.Yields pattern [start] out) ∧ ∃ more, context.Yields other [start] more) := by
  have hrearranged : context.Rearranged children others := by
    rcases h with h | ⟨hperm, hindependent | haffirmative⟩
    · exact h
    · exact .of_perm hperm hindependent
    · exact .of_perm_affirmative hperm haffirmative
  constructor
  · intro out more hout hmore
    have hperm := hrearranged.outcome_perm hpattern hother hout hmore
    refine ⟨?_, hperm⟩
    rw [← List.length_eq_zero_iff, ← List.length_eq_zero_iff, ← List.length_map Split.outcome,
      hperm.length_eq, List.length_map]
  · intro hends
    obtain ⟨depth, hdepth⟩ : ∃ depth, context.Suffices depth (.all children) :=
      hends.elim (fun acyclic => acyclic.exists_suffices _) id
    exact ⟨hdepth.exists_yields (.refl _) hpattern start,
      hdepth.exists_yields hrearranged.perm hother start⟩

theorem operands_yield_perm_swamp :
    let context : Context := ⟨fun _ => none, fun _ => true⟩
    let children : List Pattern := [.absent (.card "swamp"), .card "forest", .card "forest"]
    let others : List Pattern := [.card "forest", .absent (.card "swamp"), .card "forest"]
    context.Rearranged children others ∧ context.Suffices 0 (.all children) ∧
      ∃ pattern other, Pattern.Joins 2 children pattern ∧ Pattern.Joins 2 others other ∧
        ([(⟨⟨["forest"]⟩, ⟨["forest"]⟩⟩ : Split), ⟨⟨["forest"]⟩, ⟨["forest"]⟩⟩,
            ⟨⟨[]⟩, ⟨["forest", "forest"]⟩⟩].map Split.outcome).Perm
          ([(⟨⟨["forest"]⟩, ⟨["forest"]⟩⟩ : Split), ⟨⟨[]⟩, ⟨["forest", "forest"]⟩⟩,
            ⟨⟨["forest"]⟩, ⟨["forest"]⟩⟩].map Split.outcome) ∧
        ∃ more, context.Yields other [.ofHand ⟨["swamp"]⟩] more := by
  intro context children others
  have hrearranged : context.Rearranged children others :=
    .swap (independent_absent_card (by decide)) _
  have hsuffices : context.Suffices 0 (.all children) := fun _ _ => rfl
  have hjoins : Pattern.Joins 2 [.absent (.card "swamp"), .card "forest", .card "forest"]
      (.any [.all [.absent (.card "swamp"), .card "forest"],
        .all [.absent (.card "swamp"), .card "forest"], .all [.card "forest", .card "forest"]]) :=
    .atLeast rfl
  have hjoins' : Pattern.Joins 2 [.card "forest", .absent (.card "swamp"), .card "forest"]
      (.any [.all [.card "forest", .absent (.card "swamp")], .all [.card "forest", .card "forest"],
        .all [.absent (.card "swamp"), .card "forest"]]) :=
    .atLeast rfl
  have hperm := (operands_yield_perm (.inl hrearranged) hjoins hjoins'
    (.ofHand ⟨["forest", "forest"]⟩)).1
  have hends := (operands_yield_perm (.inl hrearranged) hjoins hjoins' (.ofHand ⟨["swamp"]⟩)).2
  exact ⟨hrearranged, hsuffices, _, _, hjoins, hjoins', (hperm _ _ ⟨0, by decide⟩ ⟨0, by decide⟩).2,
    (hends (.inr ⟨0, hsuffices⟩)).2⟩

/-- An absence holds behind an operand that uses the last copy of the card, and not in front of it. -/
theorem all_swap_not_perm :
    let context : Context := ⟨fun _ => none, fun _ => true⟩
    [Pattern.absent (.card "swamp"), .card "swamp"].Perm [.card "swamp", .absent (.card "swamp")] ∧
      context.Yields (.all [.absent (.card "swamp"), .card "swamp"]) [.ofHand ⟨["swamp"]⟩] [] ∧
      context.Yields (.all [.card "swamp", .absent (.card "swamp")]) [.ofHand ⟨["swamp"]⟩]
        [⟨⟨[]⟩, ⟨["swamp"]⟩⟩] :=
  ⟨.swap _ _ _, ⟨0, by decide⟩, ⟨0, by decide⟩⟩

end Context

end OpeningHand
