import Mathlib
import OpeningHand.Proofs.DealtHands
import OpeningHand.Proofs.HandPartition
import OpeningHand.Proofs.ShuffledLines

/-!
# Warnings about cards

A card stands in a pattern at the end of a path of child numbers, and paths in their order run through the
tree from left to right. A review of a rule book warns once for each place where there is a card that no deck
names. Evaluation never gives a hand new cards, so such a card is not found in any hand that is dealt, nor in
what is left of one.
-/

namespace OpeningHand

namespace Pattern

variable {pattern : Pattern} {path : List ℕ} {name : Card}

/-! ### Places in a pattern -/

def children : Pattern → List Pattern
  | always => []
  | card _ => []
  | named _ => []
  | all children => children
  | any children => children
  | times _ child => [child]
  | absent child => [child]

/-- The part of a pattern that a path of child numbers leads to. -/
def at? (pattern : Pattern) : List ℕ → Option Pattern
  | [] => some pattern
  | index :: path => pattern.children[index]?.bind fun child => child.at? path

def inChild (index : ℕ) (place : List ℕ × Card) : List ℕ × Card :=
  (index :: place.1, place.2)

mutual

/-- The places of the cards that a pattern mentions, from left to right. -/
def cardPlaces : Pattern → List (List ℕ × Card)
  | always => []
  | card name => [([], name)]
  | named _ => []
  | all children => rowPlaces 0 children
  | any children => rowPlaces 0 children
  | times _ child => (cardPlaces child).map (inChild 0)
  | absent child => (cardPlaces child).map (inChild 0)

/-- The places of the cards in a row whose first pattern has the given number. -/
def rowPlaces (index : ℕ) : List Pattern → List (List ℕ × Card)
  | [] => []
  | child :: children => (cardPlaces child).map (inChild index) ++ rowPlaces (index + 1) children

end

/-- Induction where all nodes but cards are treated alike. -/
theorem childInduction {motive : Pattern → Prop} (card : ∀ name, motive (card name))
    (node : ∀ pattern : Pattern, (∀ name, pattern ≠ .card name) →
      (∀ child ∈ pattern.children, motive child) → motive pattern)
    (pattern : Pattern) : motive pattern := by
  induction pattern with
  | always => exact node .always (by simp) (by simp [children])
  | card name => exact card name
  | named name => exact node (.named name) (by simp) (by simp [children])
  | all children ih => exact node (.all children) (by simp) ih
  | any children ih => exact node (.any children) (by simp) ih
  | times count child ih => exact node (.times count child) (by simp) (by simpa [children] using ih)
  | absent child ih => exact node (.absent child) (by simp) (by simpa [children] using ih)

theorem rowPlaces_eq_flatMap (index : ℕ) (row : List Pattern) :
    rowPlaces index row =
      (row.zipIdx index).flatMap fun child => child.1.cardPlaces.map (inChild child.2) := by
  induction row generalizing index with
  | nil => rfl
  | cons child row ih => rw [rowPlaces, ih, List.zipIdx_cons, List.flatMap_cons]

theorem cardPlaces_eq_flatMap (h : ∀ name, pattern ≠ .card name) :
    pattern.cardPlaces =
      pattern.children.zipIdx.flatMap fun child => child.1.cardPlaces.map (inChild child.2) := by
  cases pattern with
  | card name => exact absurd rfl (h name)
  | all row | any row => exact rowPlaces_eq_flatMap 0 row
  | always | named | times | absent => simp [cardPlaces, children]

theorem cards_eq_flatMap (h : ∀ name, pattern ≠ .card name) :
    pattern.cards = pattern.children.flatMap cards := by
  cases pattern with
  | card name => exact absurd rfl (h name)
  | all row | any row => exact rowCards_eq_flatMap row
  | always | named | times | absent => simp [cards, children]

/-- The places are those where the path leads to a card. -/
theorem mem_cardPlaces_iff : (path, name) ∈ pattern.cardPlaces ↔ pattern.at? path = some (.card name) := by
  induction pattern using childInduction generalizing path with
  | card other =>
    cases path with
    | nil => simp [cardPlaces, at?, eq_comm]
    | cons index path => simp [cardPlaces, at?, children]
  | node pattern hnode ih =>
    rw [cardPlaces_eq_flatMap hnode, List.mem_flatMap]
    cases path with
    -- At the root there is no card, and all places of the children lie further down.
    | nil => simp [at?, inChild, hnode name]
    | cons index path =>
      rw [at?, Option.bind_eq_some_iff]
      constructor
      · rintro ⟨⟨child, number⟩, hchild, hplace⟩
        obtain ⟨⟨rest, card⟩, hrest, heq⟩ := List.mem_map.mp hplace
        obtain ⟨⟨rfl, rfl⟩, rfl⟩ : (number = index ∧ rest = path) ∧ card = name := by
          simpa [inChild] using heq
        have hfound : pattern.children[number]? = some child := List.mk_mem_zipIdx_iff_getElem?.mp hchild
        exact ⟨child, hfound, (ih child (List.mem_of_getElem? hfound)).mp hrest⟩
      · rintro ⟨child, hfound, hat⟩
        refine ⟨(child, index), List.mk_mem_zipIdx_iff_getElem?.mpr hfound, ?_⟩
        exact List.mem_map.mpr ⟨(path, name), (ih child (List.mem_of_getElem? hfound)).mpr hat, rfl⟩

/-- The places stand from left to right, and none stands twice. -/
theorem cardPlaces_sorted (pattern : Pattern) :
    pattern.cardPlaces.Pairwise fun place other => place.1 < other.1 := by
  induction pattern using childInduction with
  | card name => exact List.pairwise_singleton _ _
  | node pattern hnode ih =>
    -- Within a child the order is that of the child, and children stand in the order of their numbers.
    rw [cardPlaces_eq_flatMap hnode, List.pairwise_flatMap]
    constructor
    · rintro ⟨child, index⟩ hchild
      have hmem : child ∈ pattern.children := List.fst_mem_of_mem_zipIdx hchild
      exact (ih child hmem).map (inChild index) fun place other hlt => List.Lex.cons hlt
    · have hnumbers : pattern.children.zipIdx.Pairwise fun child other => child.2 < other.2 := by
        apply List.Pairwise.of_map Prod.snd (fun _ _ hlt => hlt)
        rw [List.zipIdx_map_snd]
        exact List.pairwise_lt_range'
      refine hnumbers.imp fun hlt place hplace other hother => ?_
      obtain ⟨_, -, rfl⟩ := List.mem_map.mp hplace
      obtain ⟨_, -, rfl⟩ := List.mem_map.mp hother
      exact List.Lex.rel hlt

theorem map_cardPlaces (pattern : Pattern) : pattern.cardPlaces.map (·.2) = pattern.cards := by
  induction pattern using childInduction with
  | card name => rfl
  | node pattern hnode ih =>
    rw [cardPlaces_eq_flatMap hnode, cards_eq_flatMap hnode, List.map_flatMap]
    calc (pattern.children.zipIdx.flatMap fun child => (child.1.cardPlaces.map (inChild child.2)).map (·.2))
        = pattern.children.zipIdx.flatMap fun child => child.1.cards := by
          refine List.flatMap_congr fun child hchild => ?_
          rw [List.map_map]
          exact ih child.1 (List.fst_mem_of_mem_zipIdx hchild)
      _ = (pattern.children.zipIdx.map Prod.fst).flatMap cards := (List.flatMap_map _ _ _).symm
      _ = pattern.children.flatMap cards := by rw [List.zipIdx_map_fst]

end Pattern

/-! ### Places in a rule book -/

structure Mention where
  name : String
  path : List ℕ
  card : Card
deriving DecidableEq, Repr

namespace Mention

def StandsIn (mention : Mention) (book : RuleBook) : Prop :=
  ∃ pattern, book.patterns.get? mention.name = some pattern ∧
    pattern.at? mention.path = some (.card mention.card)

/-- The mention stands under an earlier name, or further left under the same name. -/
def Before (mention other : Mention) : Prop :=
  mention.name < other.name ∨ mention.name = other.name ∧ mention.path < other.path

end Mention

namespace RuleBook

variable {book : RuleBook} {mention : Mention}

def mentions (book : RuleBook) : List Mention :=
  book.patterns.entries.flatMap fun entry =>
    entry.2.cardPlaces.map fun place => ⟨entry.1, place.1, place.2⟩

theorem mem_mentions_iff : mention ∈ book.mentions ↔ mention.StandsIn book := by
  obtain ⟨name, path, card⟩ := mention
  rw [mentions, List.mem_flatMap]
  constructor
  · rintro ⟨⟨key, pattern⟩, hentry, hmention⟩
    obtain ⟨place, hplace, ⟨⟩⟩ := List.mem_map.mp hmention
    exact ⟨pattern, (Registry.mem_entries_iff _ _ _).mp hentry, Pattern.mem_cardPlaces_iff.mp hplace⟩
  · rintro ⟨pattern, hfound, hat⟩
    refine ⟨(name, pattern), (Registry.mem_entries_iff _ _ _).mpr hfound, ?_⟩
    exact List.mem_map.mpr ⟨(path, card), Pattern.mem_cardPlaces_iff.mpr hat, rfl⟩

theorem mentions_sorted (book : RuleBook) : book.mentions.Pairwise Mention.Before := by
  rw [mentions, List.pairwise_flatMap]
  constructor
  · rintro ⟨name, pattern⟩ -
    exact pattern.cardPlaces_sorted.map _ fun place other hlt => .inr ⟨rfl, hlt⟩
  · refine book.patterns.sorted.imp fun hlt mention hmention other hother => ?_
    obtain ⟨_, -, rfl⟩ := List.mem_map.mp hmention
    obtain ⟨_, -, rfl⟩ := List.mem_map.mp hother
    exact .inl hlt

theorem map_mentions (book : RuleBook) :
    book.mentions.map (·.card) = book.patterns.patterns.flatMap Pattern.cards := by
  rw [mentions, List.map_flatMap, Registry.patterns, List.flatMap_map]
  refine List.flatMap_congr fun entry _ => ?_
  rw [List.map_map]
  exact entry.2.map_cardPlaces

/-- A review warns about the mentions of cards that cannot turn up. -/
theorem unlisted_validateAgainst (book : RuleBook) (decks : List DeckList) :
    (book.validateAgainst decks).review.unlisted =
      (book.mentions.filter fun mention => !(book.validateAgainst decks).knows mention.card).map (·.card) := by
  calc (book.validateAgainst decks).review.unlisted
      = (book.patterns.patterns.flatMap Pattern.cards).filter
          fun card => !(book.validateAgainst decks).knows card := List.filter_flatMap.symm
    _ = (book.mentions.map (·.card)).filter fun card => !(book.validateAgainst decks).knows card := by
        rw [map_mentions]
    _ = _ := List.filter_map

end RuleBook

/-! ### Cards that are not dealt -/

/-- The split turns up while patterns are looked for in a hand: as the hand itself, or among what a pattern
makes of splits that turn up. -/
inductive Context.TurnsUp (context : Context) (hand : Pile) : Split → Prop
  | hand : TurnsUp context hand (.ofHand hand)
  | step {depth : ℕ} {pattern : Pattern} {stream out : List Split} {split : Split}
      (stream_up : ∀ before ∈ stream, TurnsUp context hand before)
      (yields : context.step depth pattern stream = .ok out) (mem : split ∈ out) :
      TurnsUp context hand split

theorem Context.TurnsUp.sublist {context : Context} {hand : Pile} {split : Split}
    (h : context.TurnsUp hand split) : split.remaining.cards.Sublist hand.cards := by
  induction h with
  | hand => exact List.Sublist.refl _
  | @step depth pattern stream out split _ yields mem ih =>
    have hleads := context.step_careful depth pattern stream
    rw [yields] at hleads
    obtain ⟨before, hbefore, used, hspends⟩ := hleads split mem
    exact hspends.sublist.trans (ih before hbefore)

theorem Context.step_card (context : Context) (depth : ℕ) (card : Card) :
    context.step depth (.card card) = card.step := by
  cases depth <;> rfl

theorem Card.step_of_not_mem {card : Card} {split : Split} (h : card ∉ split.remaining.cards) :
    card.step [split] = .ok [] := by
  have hhas : split.has card = false := by
    rwa [Split.has, ← Bool.not_eq_true, Pile.has_eq_true_iff]
  simp [Card.step, hhas]
  rfl

namespace RuleBook

/-- After validation against some decks there is one warning for each place with a card that none of them
names, in the order of the names and then from left to right. Such a card is never found, whatever else is
looked for in a hand that one of the decks deals. -/
theorem cardWarnings_exact (book : RuleBook) (decks : List DeckList) :
    ∃ unlisted : List Mention, unlisted.Pairwise Mention.Before ∧
      (∀ mention, mention ∈ unlisted ↔ mention.StandsIn book ∧
        ∀ deck ∈ decks, mention.card ∉ deck.main.cards ∧ mention.card ∉ deck.side.cards) ∧
      (book.validateAgainst decks).review.unlisted = unlisted.map (·.card) ∧
      (book.validateAgainst decks).review.warningMessages =
        unlisted.map (fun mention => "Card [" ++ mention.card ++ "] not found in deck") ∧
      ∀ mention ∈ unlisted, ∀ deck ∈ decks, ∀ draw {γ : Type} [Picker γ] (source : γ) (context : Context)
        split, context.TurnsUp (deck.deal draw source).1 split →
        ∀ depth, context.step depth (.card mention.card) [split] = .ok [] := by
  have hmem : ∀ mention, mention ∈ book.mentions.filter
      (fun mention => !(book.validateAgainst decks).knows mention.card) ↔ mention.StandsIn book ∧
        ∀ deck ∈ decks, mention.card ∉ deck.main.cards ∧ mention.card ∉ deck.side.cards := by
    intro mention
    rw [List.mem_filter, mem_mentions_iff, Bool.not_eq_true', knows_validateAgainst]
  refine ⟨_, book.mentions_sorted.filter _, hmem, book.unlisted_validateAgainst decks, ?_, ?_⟩
  · rw [Review.warningMessages, unlisted_validateAgainst, List.map_map]
    rfl
  · intro mention hmention deck hdeck draw γ _ source context split hup depth
    rw [Context.step_card]
    apply Card.step_of_not_mem
    intro hcard
    have hdealt := (deck.deal_subperm draw source).subset (hup.sublist.subset hcard)
    exact (((hmem mention).mp hmention).2 deck hdeck).1 hdealt

theorem cardWarnings_exact_swamp :
    let book := empty.add ⟨"keep", true, .all [.card "forest", .absent (.times 2 (.card "swamp"))]⟩
    let deck : DeckList := ⟨⟨["forest"]⟩, ⟨["island"]⟩⟩
    let context := (book.validateAgainst [deck]).context
    (Mention.StandsIn ⟨"keep", [1, 0, 0], "swamp"⟩ book ∧ "swamp" ∉ deck.main.cards ∧
        "swamp" ∉ deck.side.cards) ∧
      context.TurnsUp (deck.deal 1 (Generator.ofSeed 0)).1 ⟨.empty, ⟨["forest"]⟩⟩ ∧
      (book.validateAgainst [deck]).review.warningMessages = ["Card [swamp] not found in deck"] ∧
      context.step 5 (.card "swamp") [⟨.empty, ⟨["forest"]⟩⟩] = .ok [] := by
  intro book deck context
  have hstands : Mention.StandsIn ⟨"keep", [1, 0, 0], "swamp"⟩ book := ⟨_, rfl, rfl⟩
  have habsent : "swamp" ∉ deck.main.cards ∧ "swamp" ∉ deck.side.cards := by decide
  have hstep : context.step 0 (.card "forest") [.ofHand ⟨["forest"]⟩] =
      .ok [⟨.empty, ⟨["forest"]⟩⟩] := rfl
  have hup : context.TurnsUp (deck.deal 1 (Generator.ofSeed 0)).1 ⟨.empty, ⟨["forest"]⟩⟩ :=
    .step (List.forall_mem_singleton.mpr .hand) hstep List.mem_cons_self
  obtain ⟨unlisted, -, hmem, -, -, hnone⟩ := cardWarnings_exact book [deck]
  have hswamp : ⟨"keep", [1, 0, 0], "swamp"⟩ ∈ unlisted :=
    (hmem _).mpr ⟨hstands, List.forall_mem_singleton.mpr habsent⟩
  refine ⟨⟨hstands, habsent⟩, hup, ?_,
    hnone _ hswamp deck List.mem_cons_self 1 (Generator.ofSeed 0) context _ hup 5⟩
  cbv

end RuleBook

end OpeningHand
