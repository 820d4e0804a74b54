import Mathlib.Algebra.BigOperators.Group.Finset.Basic
import Mathlib.Data.Finite.Prod
import Mathlib.Data.Finite.Sigma
import Mathlib.Data.Finite.Sum
import Mathlib.SetTheory.Cardinal.Finite
import OpeningHand.Proofs.ReferenceNesting

/-!
# Counting derivations

A derivation leads from one split to another one and says, node by node, which cards were used and which
children were chosen. It is defined apart from streams. The stream of a pattern has each split exactly
as often as there are derivations to it, so no way of having the pattern is lost, and none is merged
with another one.
-/

namespace OpeningHand

/-- A chain of a number of links, from one split to another. -/
def Chain (link : Split → Split → Type) : ℕ → Split → Split → Type
  | 0 => fun start stop => PLift (stop = start)
  | count + 1 => fun start stop =>
      (middle : Split) × link start middle × Chain link count middle stop

namespace Pattern

mutual

/-- The derivations of a pattern from one split to another, where `lookup` gives those of a name. -/
def Derivation (lookup : String → Split → Split → Type) : Pattern → Split → Split → Type
  | always => fun start stop => PLift (stop = start)
  | card name => fun start stop =>
      PLift (name ∈ start.remaining.cards ∧
        stop.remaining.cards = start.remaining.cards.erase name ∧
        stop.selected.cards = start.selected.cards ++ [name])
  | named name => lookup name
  | all children => DerivationAll lookup children
  | any children => DerivationAny lookup children
  | times count child => Chain (Derivation lookup child) count
  | absent child => fun start stop =>
      PLift (stop = start ∧ ∀ other, IsEmpty (Derivation lookup child start other))

def DerivationAll (lookup : String → Split → Split → Type) :
    List Pattern → Split → Split → Type
  | [] => fun start stop => PLift (stop = start)
  | child :: children => fun start stop =>
      (middle : Split) × Derivation lookup child start middle ×
        DerivationAll lookup children middle stop

def DerivationAny (lookup : String → Split → Split → Type) :
    List Pattern → Split → Split → Type
  | [] => fun _ _ => Empty
  | child :: children => fun start stop =>
      Derivation lookup child start stop ⊕ DerivationAny lookup children start stop

end

variable {lookup other : String → Split → Split → Type}

private theorem derivationAll_congr {children : List Pattern}
    (h : ∀ child ∈ children, Derivation lookup child = Derivation other child) :
    DerivationAll lookup children = DerivationAll other children := by
  induction children with
  | nil => rfl
  | cons child children ih =>
    obtain ⟨hchild, hchildren⟩ := List.forall_mem_cons.mp h
    rw [DerivationAll, DerivationAll, hchild, ih hchildren]

private theorem derivationAny_congr {children : List Pattern}
    (h : ∀ child ∈ children, Derivation lookup child = Derivation other child) :
    DerivationAny lookup children = DerivationAny other children := by
  induction children with
  | nil => rfl
  | cons child children ih =>
    obtain ⟨hchild, hchildren⟩ := List.forall_mem_cons.mp h
    rw [DerivationAny, DerivationAny, hchild, ih hchildren]

theorem derivation_congr {pattern : Pattern}
    (h : ∀ name ∈ pattern.references, lookup name = other name) :
    Derivation lookup pattern = Derivation other pattern := by
  induction pattern, h using referenceInduction with
  | always h => rfl
  | card name h => rfl
  | named name h hname => exact hname
  | all children h ih => exact derivationAll_congr ih
  | any children h ih => exact derivationAny_congr ih
  | times count child h ih => rw [Derivation, Derivation, ih]
  | absent child h ih => rw [Derivation, Derivation, ih]

end Pattern

namespace Context.Acyclic

variable {context : Context}

/-- The derivations of a name: those of the pattern it resolves to, and none if it does not resolve. -/
noncomputable def nameDerivation (acyclic : context.Acyclic) : String → Split → Split → Type :=
  acyclic.meaning (fun _ _ => Empty) Pattern.Derivation

theorem nameDerivation_of_none (acyclic : context.Acyclic) {name : String}
    (h : context.resolve name = none) : acyclic.nameDerivation name = fun _ _ => Empty :=
  acyclic.meaning_of_none h

theorem nameDerivation_of_some (acyclic : context.Acyclic) {name : String} {pattern : Pattern}
    (h : context.resolve name = some pattern) :
    acyclic.nameDerivation name = pattern.Derivation acyclic.nameDerivation :=
  acyclic.meaning_of_some (fun _ _ _ => Pattern.derivation_congr) h

abbrev Derivation (acyclic : context.Acyclic) (pattern : Pattern) : Split → Split → Type :=
  pattern.Derivation acyclic.nameDerivation

end Context.Acyclic

/-! ### Rows that count derivations -/

/-- There are as many derivations to each split as the row has copies of it. -/
def CountedBy (derivations : Split → Type) (row : List Split) : Prop :=
  ∀ stop, Finite (derivations stop) ∧ Nat.card (derivations stop) = row.count stop

namespace CountedBy

variable {derivations others : Split → Type} {row other : List Split}

theorem perm (h : CountedBy derivations row) (hperm : row.Perm other) :
    CountedBy derivations other := by
  intro stop
  obtain ⟨hfinite, hcard⟩ := h stop
  exact ⟨hfinite, hcard.trans (hperm.count_eq stop)⟩

theorem nonempty_iff (h : CountedBy derivations row) (stop : Split) :
    Nonempty (derivations stop) ↔ stop ∈ row := by
  obtain ⟨hfinite, hcard⟩ := h stop
  rw [← List.count_pos_iff, ← hcard, Nat.card_pos_iff]
  exact ⟨fun hn => ⟨hn, hfinite⟩, fun hn => hn.1⟩

theorem isEmpty_iff (h : CountedBy derivations row) :
    (∀ stop, IsEmpty (derivations stop)) ↔ row = [] := by
  simp only [← not_nonempty_iff, h.nonempty_iff, List.eq_nil_iff_forall_not_mem]

theorem empty : CountedBy (fun _ => Empty) [] := by
  intro stop
  exact ⟨inferInstance, by simp⟩

/-- At most one split, with one derivation to it. -/
theorem single (reached : Split → Prop) (keep : Bool) (target : Split)
    (h : ∀ stop, reached stop ↔ keep ∧ stop = target) :
    CountedBy (fun stop => PLift (reached stop)) (if keep then [target] else []) := by
  intro stop
  refine ⟨inferInstance, ?_⟩
  by_cases hreached : reached stop
  · obtain ⟨hkeep, rfl⟩ := (h stop).mp hreached
    have : Nonempty (PLift (reached stop)) := ⟨⟨hreached⟩⟩
    rw [Nat.card_unique, if_pos hkeep, List.count_singleton_self]
  · have : IsEmpty (PLift (reached stop)) := ⟨fun hstop => hreached hstop.down⟩
    rw [Nat.card_of_isEmpty, eq_comm, List.count_eq_zero]
    intro hmem
    split at hmem
    · next hkeep => exact hreached ((h stop).mpr ⟨hkeep, List.mem_singleton.mp hmem⟩)
    · cases hmem

theorem stay (start : Split) : CountedBy (fun stop => PLift (stop = start)) [start] :=
  single _ true start fun _ => by simp

theorem sum (h : CountedBy derivations row) (hothers : CountedBy others other) :
    CountedBy (fun stop => derivations stop ⊕ others stop) (row ++ other) := by
  intro stop
  obtain ⟨hfinite, hcard⟩ := h stop
  obtain ⟨hfiniteOthers, hcardOthers⟩ := hothers stop
  refine ⟨inferInstanceAs (Finite (derivations stop ⊕ others stop)), ?_⟩
  rw [Nat.card_sum, List.count_append, hcard, hcardOthers]

/-- A split can stand in the middle of a derivation only if it stands in the row. -/
private theorem bijective_middle (h : CountedBy derivations row) (rest : Split → Type) :
    Function.Bijective fun step : ((middle : row.toFinset) × derivations middle × rest middle) =>
      (⟨step.1, step.2⟩ : (middle : Split) × derivations middle × rest middle) := by
  constructor
  · rintro ⟨⟨left, hleft⟩, first⟩ ⟨⟨right, hright⟩, second⟩ heq
    cases heq
    rfl
  · rintro ⟨middle, first, second⟩
    have hmem : middle ∈ row := (h.nonempty_iff middle).mp ⟨first⟩
    exact ⟨⟨⟨middle, List.mem_toFinset.mpr hmem⟩, first, second⟩, rfl⟩

/-- One derivation behind the other: the copies of a split in the middle multiply. -/
theorem bind (h : CountedBy derivations row) {rest : Split → Split → Type}
    {next : Split → List Split} (hrest : ∀ middle, CountedBy (rest middle) (next middle)) :
    CountedBy (fun stop => (middle : Split) × derivations middle × rest middle stop)
      (row.flatMap next) := by
  intro stop
  have hfinite : ∀ middle : row.toFinset, Finite (derivations middle × rest middle stop) := by
    intro middle
    have hfirst := (h middle).1
    have hsecond := (hrest middle stop).1
    infer_instance
  have hbijective := h.bijective_middle fun middle => rest middle stop
  refine ⟨Finite.of_surjective _ hbijective.surjective, ?_⟩
  calc Nat.card ((middle : Split) × derivations middle × rest middle stop)
    _ = Nat.card ((middle : row.toFinset) × derivations middle × rest middle stop) :=
        (Nat.card_eq_of_bijective _ hbijective).symm
    _ = ∑ middle : row.toFinset, row.count middle.val * (next middle.val).count stop := by
        rw [Nat.card_sigma]
        simp only [Nat.card_prod, (h _).2, (hrest _ stop).2]
    _ = ∑ middle ∈ row.toFinset, row.count middle * (next middle).count stop :=
        Finset.sum_coe_sort row.toFinset fun middle => row.count middle * (next middle).count stop
    _ = (row.map fun middle => (next middle).count stop).sum := by
        rw [Finset.sum_list_map_count]
        rfl
    _ = (row.flatMap next).count stop := List.count_flatMap.symm

theorem chain {link : Split → Split → Type} {flow : Flow} (hbranching : flow.Branching)
    (h : ∀ start, CountedBy (link start) (flow [start])) (count : ℕ) (start : Split) :
    CountedBy (Chain link count start) (flow^[count] [start]) := by
  induction count generalizing start with
  | zero => exact stay start
  | succ count ih =>
    have hbind := (h start).bind ih
    exact hbind.perm (hbranching.iterate count (flow [start])).symm

end CountedBy

namespace Pattern

variable {lookup : String → Split → Split → Type} {flows : String → Flow}

theorem countedBy_all {children : List Pattern}
    (hbranching : ∀ child ∈ children, (child.flow flows).Branching)
    (h : ∀ child ∈ children, ∀ start,
      CountedBy (Derivation lookup child start) (child.flow flows [start])) (start : Split) :
    CountedBy (DerivationAll lookup children start) (flowAll flows children [start]) := by
  induction children generalizing start with
  | nil => exact CountedBy.stay start
  | cons child children ih =>
    obtain ⟨hchild, hchildren⟩ := List.forall_mem_cons.mp h
    obtain ⟨_, hrest⟩ := List.forall_mem_cons.mp hbranching
    have hbind := (hchild start).bind (ih hrest hchildren)
    exact hbind.perm (flowAll_branching hrest _).symm

theorem countedBy_any {children : List Pattern}
    (h : ∀ child ∈ children, ∀ start,
      CountedBy (Derivation lookup child start) (child.flow flows [start])) (start : Split) :
    CountedBy (DerivationAny lookup children start) (flowAny flows children [start]) := by
  induction children with
  | nil => exact CountedBy.empty
  | cons child children ih =>
    obtain ⟨hchild, hchildren⟩ := List.forall_mem_cons.mp h
    exact (hchild start).sum (ih hchildren)

theorem countedBy_card (name : Card) (start : Split) :
    CountedBy (Derivation lookup (card name) start) (name.flow [start]) := by
  have hsplit : ∀ stop : Split, (stop.remaining.cards = start.remaining.cards.erase name ∧
      stop.selected.cards = start.selected.cards ++ [name]) ↔ stop = start.use name := by
    rintro ⟨⟨remaining⟩, ⟨selected⟩⟩
    simp [Split.use, Pile.add]
  have hsingle := CountedBy.single (fun stop => name ∈ start.remaining.cards ∧
      stop.remaining.cards = start.remaining.cards.erase name ∧
      stop.selected.cards = start.selected.cards ++ [name]) (start.has name) (start.use name)
    fun stop => by rw [hsplit, Split.has, Pile.has_eq_true_iff]
  simpa only [Card.flow, List.filter_singleton, apply_ite (List.map _), List.map_cons,
    List.map_nil, Derivation, Bool.cond_eq_ite] using hsingle

/-- If the flows of the names in a pattern count their derivations, so does the flow of the pattern. -/
theorem countedBy_flow {pattern : Pattern} (hbranching : ∀ name, (flows name).Branching)
    (h : ∀ name ∈ pattern.references, ∀ start, CountedBy (lookup name start) (flows name [start])) :
    ∀ start, CountedBy (Derivation lookup pattern start) (pattern.flow flows [start]) := by
  have hpattern : ∀ other : Pattern, (other.flow flows).Branching := fun _ =>
    flow_branching fun name _ => hbranching name
  induction pattern, h using referenceInduction with
  | always h => exact CountedBy.stay
  | card name h => exact countedBy_card name
  | named name h hname => exact hname
  | all children h ih => exact countedBy_all (fun child _ => hpattern child) ih
  | any children h ih => exact countedBy_any ih
  | times count child h ih => exact CountedBy.chain (hpattern child) ih count
  | absent child h ih =>
    intro start
    have hsingle := CountedBy.single
      (fun stop => stop = start ∧ ∀ other, IsEmpty (Derivation lookup child start other))
      (child.flow flows [start]).isEmpty start
      fun stop => by rw [(ih start).isEmpty_iff, List.isEmpty_iff, and_comm]
    simpa only [flow, Flow.refused, List.filter_singleton, Derivation, Bool.cond_eq_ite] using hsingle

end Pattern

namespace Context.Acyclic

variable {context : Context}

theorem countedBy_nameFlow (acyclic : context.Acyclic) (name : String) (start : Split) :
    CountedBy (acyclic.nameDerivation name start) (acyclic.flow name [start]) := by
  induction name using acyclic.nameInduction generalizing start with
  | unresolved name h =>
    rw [acyclic.nameDerivation_of_none h, acyclic.flow_of_none h]
    exact CountedBy.empty
  | resolved name pattern h ih =>
    rw [acyclic.nameDerivation_of_some h, acyclic.flow_of_some h]
    exact Pattern.countedBy_flow acyclic.flow_branching ih start

theorem countedBy_flow (acyclic : context.Acyclic) (pattern : Pattern) (start : Split) :
    CountedBy (acyclic.Derivation pattern start) (pattern.flow acyclic.flow [start]) :=
  Pattern.countedBy_flow acyclic.flow_branching (fun name _ => acyclic.countedBy_nameFlow name) start

theorem branching (acyclic : context.Acyclic) (pattern : Pattern) :
    (pattern.flow acyclic.flow).Branching :=
  Pattern.flow_branching fun name _ => acyclic.flow_branching name

/-- In an acyclic context the stream of a pattern counts its derivations. A split is in the stream
exactly if a derivation leads to it, and the streams of two parts make up that of the whole. -/
theorem yields_count_derivation (acyclic : context.Acyclic) (pattern : Pattern)
    (stream : List Split) :
    ∃ out, context.Yields pattern stream out ∧
      (∀ start stop, Finite (acyclic.Derivation pattern start stop)) ∧
      (∀ stop, out.count stop =
        (stream.map fun start => Nat.card (acyclic.Derivation pattern start stop)).sum) ∧
      (∀ stop, stop ∈ out ↔ ∃ start ∈ stream, Nonempty (acyclic.Derivation pattern start stop)) ∧
      ∀ left right, stream = left ++ right → ∃ outLeft outRight,
        context.Yields pattern left outLeft ∧ context.Yields pattern right outRight ∧
          out.Perm (outLeft ++ outRight) := by
  have hcounted := acyclic.countedBy_flow pattern
  have hbranching := acyclic.branching pattern
  refine ⟨_, acyclic.yields_flow pattern stream, ?_, ?_, ?_, ?_⟩
  · exact fun start stop => (hcounted start stop).1
  · intro stop
    rw [(hbranching stream).count_eq, List.count_flatMap]
    congr 1
    apply List.map_congr_left
    exact fun start _ => (hcounted start stop).2.symm
  · intro stop
    rw [(hbranching stream).mem_iff, List.mem_flatMap]
    simp only [(hcounted _).nonempty_iff]
  · rintro left right rfl
    exact ⟨_, _, acyclic.yields_flow pattern left, acyclic.yields_flow pattern right,
      hbranching.append left right⟩

/-- A land is one of two forests, told apart only by their place in the pattern, so that two lands are
there in four ways. -/
theorem yields_count_derivation_lands :
    ∃ acyclic : (⟨fun name =>
        if name = "land" then some (.any [.card "forest", .card "forest"])
        else if name = "lands" then some (.times 2 (.named "land")) else none,
        fun _ => true⟩ : Context).Acyclic,
      Nat.card (acyclic.Derivation (.all [.named "lands", .absent (.card "swamp")])
        (.ofHand ⟨["forest", "island", "forest"]⟩) ⟨⟨["island"]⟩, ⟨["forest", "forest"]⟩⟩) = 4 := by
  generalize hcontext : (⟨fun name =>
        if name = "land" then some (.any [.card "forest", .card "forest"])
        else if name = "lands" then some (.times 2 (.named "land")) else none,
        fun _ => true⟩ : Context) = context
  have hacyclic : context.Acyclic := by
    refine ⟨Subrelation.wf ?_ (measure fun name => if name = "lands" then 1 else 0).wf⟩
    rintro target name ⟨pattern, hresolve, htarget⟩
    subst hcontext
    by_cases hland : name = "land"
    · subst hland
      obtain rfl := Option.some.inj hresolve
      cases htarget
    · by_cases hlands : name = "lands"
      · subst hlands
        obtain rfl := Option.some.inj hresolve
        obtain rfl := List.mem_singleton.mp htarget
        change (if "land" = "lands" then 1 else 0) < if "lands" = "lands" then 1 else 0
        decide
      · simp [hland, hlands] at hresolve
  refine ⟨hacyclic, ?_⟩
  obtain ⟨out, hyields, -, hcount, -⟩ := yields_count_derivation hacyclic
    (.all [.named "lands", .absent (.card "swamp")]) [.ofHand ⟨["forest", "island", "forest"]⟩]
  have hout : context.Yields (.all [.named "lands", .absent (.card "swamp")])
      [.ofHand ⟨["forest", "island", "forest"]⟩]
      (List.replicate 4 ⟨⟨["island"]⟩, ⟨["forest", "forest"]⟩⟩) :=
    ⟨2, by subst hcontext; decide⟩
  have hfour := hcount ⟨⟨["island"]⟩, ⟨["forest", "forest"]⟩⟩
  rw [hyields.unique hout] at hfour
  simpa using hfour.symm

end Context.Acyclic

end OpeningHand
