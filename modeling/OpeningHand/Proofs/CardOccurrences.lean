import OpeningHand.Proofs.BagTakings

/-!
# The cards that a pattern depends on

A pattern uses cards that it mentions outside of every absence, and watches those that it mentions inside
of one. From a smaller bag with the watched cards still in it, it takes just what it takes from the whole
bag and what is still there.
-/

namespace OpeningHand

namespace Pattern

mutual

def affirms : Pattern → Bool
  | always | card _ | named _ => true
  | all children | any children => rowAffirms children
  | times _ child => affirms child
  | absent _ => false

def rowAffirms : List Pattern → Bool
  | [] => true
  | child :: children => affirms child && rowAffirms children

end

theorem rowAffirms_iff (children : List Pattern) :
    rowAffirms children = true ↔ ∀ child ∈ children, child.affirms = true := by
  induction children with
  | nil => exact iff_of_true rfl (List.forall_mem_nil _)
  | cons child children ih => rw [rowAffirms, Bool.and_eq_true, ih, List.forall_mem_cons]

end Pattern

namespace Context

/-- The node occurs in the pattern, where a name stands for what it resolves to. The flag says whether it
is inside of an absence there. -/
inductive Occurs (context : Context) (node : Pattern) : Bool → Pattern → Prop
  | self : Occurs context node false node
  | named {name : String} {found : Pattern} {inside : Bool} (hfound : context.resolve name = some found)
      (h : Occurs context node inside found) : Occurs context node inside (.named name)
  | all {children : List Pattern} {child : Pattern} {inside : Bool} (hchild : child ∈ children)
      (h : Occurs context node inside child) : Occurs context node inside (.all children)
  | any {children : List Pattern} {child : Pattern} {inside : Bool} (hchild : child ∈ children)
      (h : Occurs context node inside child) : Occurs context node inside (.any children)
  | times {count : Nat} {child : Pattern} {inside : Bool} (h : Occurs context node inside child) :
      Occurs context node inside (.times count child)
  | absent {child : Pattern} {inside : Bool} (h : Occurs context node inside child) :
      Occurs context node true (.absent child)

/-- The pattern may use copies of the card. -/
def Uses (context : Context) (pattern : Pattern) (card : Card) : Prop :=
  context.Occurs (.card card) false pattern

/-- Whether there are copies of the card may decide about an absence in the pattern. -/
def Watches (context : Context) (pattern : Pattern) (card : Card) : Prop :=
  context.Occurs (.card card) true pattern

/-- There is no absence in the pattern, nor in what its names lead to. -/
def Affirmative (context : Context) (pattern : Pattern) : Prop :=
  ∀ child inside, ¬context.Occurs (.absent child) inside pattern

variable {context : Context} {child found : Pattern} {children : List Pattern} {count : ℕ}
  {name : String}

theorem affirmative_named (hfound : context.resolve name = some found) :
    context.Affirmative (.named name) ↔ context.Affirmative found := by
  constructor
  · exact fun h node inside hnode => h node inside (.named hfound hnode)
  · intro h node inside hnode
    cases hnode with
    | named hother hnode =>
      obtain rfl := Option.some.inj (hfound.symm.trans hother)
      exact h node inside hnode

theorem affirmative_all :
    context.Affirmative (.all children) ↔ ∀ child ∈ children, context.Affirmative child := by
  constructor
  · exact fun h child hchild node inside hnode => h node inside (.all hchild hnode)
  · intro h node inside hnode
    cases hnode with
    | all hchild hnode => exact h _ hchild node inside hnode

theorem affirmative_any :
    context.Affirmative (.any children) ↔ ∀ child ∈ children, context.Affirmative child := by
  constructor
  · exact fun h child hchild node inside hnode => h node inside (.any hchild hnode)
  · intro h node inside hnode
    cases hnode with
    | any hchild hnode => exact h _ hchild node inside hnode

theorem affirmative_times : context.Affirmative (.times count child) ↔ context.Affirmative child := by
  constructor
  · exact fun h node inside hnode => h node inside (.times hnode)
  · intro h node inside hnode
    cases hnode with
    | times hnode => exact h node inside hnode

theorem not_affirmative_absent : ¬context.Affirmative (.absent child) :=
  fun h => h child false .self

/-- Where no pattern behind a name has a node for an absence, it is enough to look at the pattern
itself. -/
theorem affirmative_of_affirms
    (hnames : ∀ name found, context.resolve name = some found → found.affirms = true)
    {pattern : Pattern} (h : pattern.affirms = true) : context.Affirmative pattern := by
  intro child inside hnode
  induction hnode with
  | self => exact Bool.false_ne_true h
  | named hfound _ ih => exact ih (hnames _ _ hfound)
  | all hchild _ ih | any hchild _ ih => exact ih ((Pattern.rowAffirms_iff _).mp h _ hchild)
  | times _ ih => exact ih h
  | absent _ _ => exact Bool.false_ne_true h

end Context

namespace Taking

/-- The bags of the one kind that are small enough, each with the bags of the other kind that are small
enough for the rest, are the sums that are small enough. -/
theorem bind_filter_le (bag : Bag) (bags : Multiset Bag) (later : Bag → Multiset Bag) :
    ((bags.filter (· ≤ bag)).bind fun taken =>
        ((later taken).filter (· ≤ bag - taken)).map (taken + ·)) =
      (bags.bind fun taken => (later taken).map (taken + ·)).filter (· ≤ bag) := by
  induction bags using Multiset.induction_on with
  | empty => rfl
  | cons taken bags ih =>
    rw [Multiset.cons_bind, Multiset.filter_add, ← ih, Multiset.filter_map]
    by_cases hle : taken ≤ bag
    · have hkept : (taken ::ₘ bags).filter (· ≤ bag) = taken ::ₘ bags.filter (· ≤ bag) :=
        Multiset.filter_cons_of_pos _ hle
      rw [hkept, Multiset.cons_bind]
      congr 2
      exact Multiset.filter_congr fun more _ => le_tsub_iff_left hle
    · have hdropped : (taken ::ₘ bags).filter (· ≤ bag) = bags.filter (· ≤ bag) :=
        Multiset.filter_cons_of_neg _ hle
      have hnone : (later taken).filter ((· ≤ bag) ∘ (taken + ·)) = 0 := by
        rw [Multiset.filter_eq_nil]
        exact fun more _ hmore => hle ((Multiset.le_add_right taken more).trans hmore)
      rw [hdropped, hnone, Multiset.map_zero, zero_add]

theorem eq_zero_of_mem_refused {taking : Taking} {bag taken : Bag} (h : taken ∈ taking.refused bag) :
    taken = 0 := by
  rw [Taking.refused] at h
  split at h
  · exact Multiset.mem_singleton.mp h
  · exact (Multiset.notMem_zero _ h).elim

/-- Only cards of the first kind are taken, and nothing but the number of cards of the second kind can
stand in the way of taking what is there. -/
structure Local (taking : Taking) (used watched : Card → Prop) : Prop where
  le_bag : ∀ {bag taken : Bag}, taken ∈ taking bag → taken ≤ bag
  used_of_mem : ∀ {bag taken : Bag}, taken ∈ taking bag → ∀ card ∈ taken, used card
  eq_filter_le : ∀ {bag less : Bag}, less ≤ bag →
    (∀ card, watched card → less.count card = bag.count card) →
    taking less = (taking bag).filter (· ≤ less)

namespace Local

variable {first second : Taking} {used watched others seen : Card → Prop}

theorem mono (h : first.Local used watched) (hused : ∀ card, used card → others card)
    (hwatched : ∀ card, watched card → seen card) : first.Local others seen :=
  ⟨h.le_bag, fun htaken card hcard => hused card (h.used_of_mem htaken card hcard),
    fun hless hseen => h.eq_filter_le hless fun card hcard => hseen card (hwatched card hcard)⟩

theorem nowhere (used watched : Card → Prop) : Local 0 used watched :=
  ⟨fun h => (Multiset.notMem_zero _ h).elim, fun h => (Multiset.notMem_zero _ h).elim, fun _ _ => rfl⟩

theorem nothing (used watched : Card → Prop) : Taking.nothing.Local used watched := by
  refine ⟨?_, ?_, ?_⟩
  · intro bag taken h
    rw [Multiset.mem_singleton.mp h]
    exact Multiset.zero_le _
  · intro bag taken h card hcard
    rw [Multiset.mem_singleton.mp h] at hcard
    exact (Multiset.notMem_zero card hcard).elim
  · intro bag less _ _
    exact (Multiset.filter_eq_self.mpr fun taken h => by
      rw [Multiset.mem_singleton.mp h]
      exact Multiset.zero_le _).symm

theorem side (h : first.Local used watched) (h' : second.Local used watched) :
    (first + second).Local used watched := by
  refine ⟨?_, ?_, ?_⟩
  · intro bag taken htaken
    exact (Multiset.mem_add.mp htaken).elim h.le_bag h'.le_bag
  · intro bag taken htaken
    exact (Multiset.mem_add.mp htaken).elim h.used_of_mem h'.used_of_mem
  · intro bag less hless hwatched
    change first less + second less = (first bag + second bag).filter _
    rw [Multiset.filter_add, h.eq_filter_le hless hwatched, h'.eq_filter_le hless hwatched]

theorem next (h : first.Local used watched) (h' : second.Local used watched) :
    (first.next second).Local used watched := by
  refine ⟨?_, ?_, ?_⟩
  · intro bag taken htaken
    obtain ⟨one, hone, htaken⟩ := Multiset.mem_bind.mp htaken
    obtain ⟨other, hother, rfl⟩ := Multiset.mem_map.mp htaken
    exact (le_tsub_iff_left (h.le_bag hone)).mp (h'.le_bag hother)
  · intro bag taken htaken card hcard
    obtain ⟨one, hone, htaken⟩ := Multiset.mem_bind.mp htaken
    obtain ⟨other, hother, rfl⟩ := Multiset.mem_map.mp htaken
    exact (Multiset.mem_add.mp hcard).elim (h.used_of_mem hone card) (h'.used_of_mem hother card)
  · intro bag less hless hwatched
    have hrest : ∀ taken, second (less - taken) = (second (bag - taken)).filter (· ≤ less - taken) := by
      intro taken
      apply h'.eq_filter_le (tsub_le_tsub_right hless taken)
      intro card hcard
      rw [Multiset.count_sub, Multiset.count_sub, hwatched card hcard]
    simp only [Taking.next, hrest, h.eq_filter_le hless hwatched]
    exact bind_filter_le less (first bag) fun taken => second (bag - taken)

theorem repeated (h : first.Local used watched) (count : Nat) :
    (first.repeated count).Local used watched := by
  induction count with
  | zero => exact nothing used watched
  | succ count ih => exact h.next ih

/-- Where no card that is used or watched is missing, an absence cannot tell the bags apart. -/
theorem refused (h : first.Local used watched) :
    first.refused.Local others fun card => used card ∨ watched card := by
  refine ⟨?_, ?_, ?_⟩
  · intro bag taken htaken
    rw [eq_zero_of_mem_refused htaken]
    exact Multiset.zero_le _
  · intro bag taken htaken card hcard
    rw [eq_zero_of_mem_refused htaken] at hcard
    exact (Multiset.notMem_zero card hcard).elim
  · intro bag less hless hseen
    -- All that can be taken from the whole bag consists of cards none of which is missing.
    have hfits : ∀ taken ∈ first bag, taken ≤ less := by
      intro taken htaken
      rw [Multiset.le_iff_count]
      intro card
      by_cases hcard : card ∈ taken
      · rw [hseen card (.inl (h.used_of_mem htaken card hcard))]
        exact Multiset.count_le_of_le card (h.le_bag htaken)
      · rw [Multiset.count_eq_zero_of_notMem hcard]
        exact Nat.zero_le _
    have hsame : first less = first bag := by
      rw [h.eq_filter_le hless fun card hcard => hseen card (.inr hcard)]
      exact Multiset.filter_eq_self.mpr hfits
    have hself : first.refused less = first.refused bag := by
      rw [Taking.refused, Taking.refused, hsame]
    rw [hself]
    refine (Multiset.filter_eq_self.mpr fun taken htaken => ?_).symm
    rw [eq_zero_of_mem_refused htaken]
    exact Multiset.zero_le _

end Local

end Taking

theorem Card.mem_taking {card : Card} {bag taken : Bag} (h : taken ∈ card.taking bag) :
    card ∈ bag ∧ taken = {card} := by
  rw [Card.taking] at h
  split at h
  · next hcard => exact ⟨hcard, Multiset.mem_singleton.mp h⟩
  · exact (Multiset.notMem_zero _ h).elim

theorem Card.taking_local (card : Card) (watched : Card → Prop) :
    card.taking.Local (· = card) watched := by
  refine ⟨?_, ?_, ?_⟩
  · intro bag taken htaken
    obtain ⟨hcard, rfl⟩ := mem_taking htaken
    exact Multiset.singleton_le.mpr hcard
  · intro bag taken htaken other hother
    obtain ⟨-, rfl⟩ := mem_taking htaken
    exact Multiset.mem_singleton.mp hother
  · intro bag less hless _
    by_cases hcard : card ∈ less
    · rw [Card.taking, Card.taking, if_pos hcard, if_pos (Multiset.mem_of_le hless hcard)]
      refine (Multiset.filter_eq_self.mpr fun taken htaken => ?_).symm
      rw [Multiset.mem_singleton.mp htaken]
      exact Multiset.singleton_le.mpr hcard
    · rw [Card.taking, if_neg hcard, eq_comm, Multiset.filter_eq_nil]
      intro taken htaken hle
      rw [(mem_taking htaken).2] at hle
      exact hcard (Multiset.singleton_le.mp hle)

namespace Pattern

variable {lookup : String → Taking} {used watched : Card → Prop}

theorem takingAll_local {children : List Pattern}
    (h : ∀ child ∈ children, (child.taking lookup).Local used watched) :
    (takingAll lookup children).Local used watched := by
  induction children with
  | nil => exact .nothing used watched
  | cons child children ih =>
    obtain ⟨hchild, hchildren⟩ := List.forall_mem_cons.mp h
    exact hchild.next (ih hchildren)

theorem takingAny_local {children : List Pattern}
    (h : ∀ child ∈ children, (child.taking lookup).Local used watched) :
    (takingAny lookup children).Local used watched := by
  induction children with
  | nil => exact .nowhere used watched
  | cons child children ih =>
    obtain ⟨hchild, hchildren⟩ := List.forall_mem_cons.mp h
    exact hchild.side (ih hchildren)

/-- A pattern depends on the cards that occur in it, if names do. -/
theorem taking_local {context : Context}
    (h : ∀ name, (lookup name).Local (context.Uses (.named name)) (context.Watches (.named name)))
    (pattern : Pattern) :
    (pattern.taking lookup).Local (context.Uses pattern) (context.Watches pattern) := by
  induction pattern with
  | always => exact .nothing _ _
  | card name =>
    refine (Card.taking_local name fun _ => False).mono ?_ fun _ => False.elim
    rintro _ rfl
    exact .self
  | named name => exact h name
  | all children ih =>
    exact takingAll_local fun child hchild =>
      (ih child hchild).mono (fun _ => .all hchild) fun _ => .all hchild
  | any children ih =>
    exact takingAny_local fun child hchild =>
      (ih child hchild).mono (fun _ => .any hchild) fun _ => .any hchild
  | times count child ih => exact (ih.mono (fun _ => .times) fun _ => .times).repeated count
  | absent child ih =>
    refine ih.refused.mono (fun _ => id) fun card hcard => ?_
    exact hcard.elim .absent .absent

end Pattern

namespace Context

theorem takingWithin_local (context : Context) (depth : Nat) (name : String) :
    (context.takingWithin depth name).Local (context.Uses (.named name))
      (context.Watches (.named name)) := by
  induction depth generalizing name with
  | zero => exact .nowhere _ _
  | succ depth ih =>
    cases hfound : context.resolve name with
    | none =>
      rw [takingWithin_of_none hfound]
      exact .nowhere _ _
    | some found =>
      rw [takingWithin_succ_of_some hfound]
      exact (Pattern.taking_local ih found).mono (fun _ => .named hfound) fun _ => .named hfound

/-- What a pattern takes depends on the cards that occur in it. -/
theorem local_within (context : Context) (depth : Nat) (pattern : Pattern) :
    (pattern.taking (context.takingWithin depth)).Local (context.Uses pattern)
      (context.Watches pattern) :=
  Pattern.taking_local (context.takingWithin_local depth) pattern

end Context

end OpeningHand
