import OpeningHand.Proofs.DeclarationGrammar
import OpeningHand.Proofs.LeafReaders
import OpeningHand.Proofs.RegularReading

/-!
# What is read derives from the grammar

Each reader takes a text off the beginning of what is left, and the value that it gives derives from this
text. A fault has its cause in the text as well: a row there has too many selections.
-/

namespace OpeningHand

namespace Grammar

variable {bound limit : Nat} {α β : Type}

/-- If a value is given, it is as it should be; a fault comes from an overflow in the text. -/
inductive Justified (text : List Char) (good : α → Prop) : Except ReadFailure α → Prop
  | ok {value : α} (h : good value) : Justified text good (.ok value)
  | malformed {diagnostic : Diagnostic Flaw} : Justified text good (.error (.malformed diagnostic))
  | fault {fault : Fault} (h : Overflows text fault) : Justified text good (.error (.fault fault))

namespace Justified

variable {text rest : List Char} {good : α → Prop} {better : β → Prop}

theorem refuse (cursor : Cursor) (flaw : Flaw) : Justified text good (cursor.refuse flaw) :=
  .malformed

theorem imp {better : α → Prop} {outcome : Except ReadFailure α} (h : Justified text good outcome)
    (hbetter : ∀ value, good value → better value) : Justified text better outcome := by
  cases h with
  | ok hgood => exact .ok (hbetter _ hgood)
  | malformed => exact .malformed
  | fault hfault => exact .fault hfault

theorem bind {first : Except ReadFailure α} {onward : α → Except ReadFailure β}
    (h : Justified text good first)
    (hnext : ∀ value, good value → Justified text better (onward value)) :
    Justified text better (first >>= onward) := by
  cases h with
  | ok hgood => exact hnext _ hgood
  | malformed => exact .malformed
  | fault hfault => exact .fault hfault

theorem of_eq_ok {outcome : Except ReadFailure α} {value : α} (h : Justified text good outcome)
    (hvalue : outcome = .ok value) : good value := by
  subst hvalue
  cases h with
  | ok hgood => exact hgood

/-- What has been read before does not matter. -/
theorem behind {outcome : Except ReadFailure α} (h : Justified rest good outcome) :
    Justified (text ++ rest) good outcome := by
  cases h with
  | ok hgood => exact .ok hgood
  | malformed => exact .malformed
  | fault hfault =>
    obtain ⟨before, argument, row, after, count, children, rfl, hcause⟩ := hfault
    exact .fault ⟨text ++ before, argument, row, after, count, children, by simp, hcause⟩

end Justified

/-- What is given goes with the text up to what is left. -/
abbrev Finds (rest : List Char) (good : List Char → α → Prop)
    (outcome : Except ReadFailure (Ahead bound α)) : Prop :=
  Justified rest (fun ahead => ∃ text, rest = text ++ ahead.next.rest ∧ good text ahead.value) outcome

namespace Finds

variable {rest : List Char} {good : List Char → α → Prop} {better : List Char → β → Prop}

theorem read {text : List Char} {value : α} {next : Cursor} {shorter : next.rest.length < bound}
    (hrest : rest = text ++ next.rest) (h : good text value) :
    Finds rest good (.ok ⟨value, next, shorter⟩) :=
  .ok ⟨text, hrest, h⟩

/-- Nothing more is read. -/
theorem done {value : α} {next : Cursor} {shorter : next.rest.length < bound} (h : good [] value) :
    Finds next.rest good (.ok ⟨value, next, shorter⟩) :=
  read rfl h

/-- What is read first stands in front of what is read next. -/
theorem append {text tail : List Char} {outcome : Except ReadFailure (Ahead bound α)}
    (hrest : rest = text ++ tail) (h : Finds tail (fun more => good (text ++ more)) outcome) :
    Finds rest good outcome := by
  subst hrest
  apply (Justified.behind h).imp
  rintro ahead ⟨more, hmore, hgood⟩
  exact ⟨text ++ more, by rw [hmore, List.append_assoc], hgood⟩

/-- The whole text goes on with what is read next. -/
theorem within {line text : List Char} {outcome : Except ReadFailure (Ahead bound α)}
    (h : Finds rest good outcome) (hline : line = text ++ rest) :
    Justified line
      (fun ahead => ∃ more, line = text ++ more ++ ahead.next.rest ∧ good more ahead.value) outcome := by
  subst hline
  apply (Justified.behind h).imp
  rintro ahead ⟨more, hmore, hgood⟩
  exact ⟨more, by rw [hmore, List.append_assoc], hgood⟩

theorem bind {first : Except ReadFailure (Ahead bound α)}
    {onward : Ahead bound α → Except ReadFailure (Ahead limit β)} (h : Finds rest good first)
    (hnext : ∀ ahead text, good text ahead.value →
      Finds ahead.next.rest (fun more => better (text ++ more)) (onward ahead)) :
    Finds rest better (first >>= onward) := by
  apply Justified.bind h
  rintro ahead ⟨text, hrest, hgood⟩
  exact append hrest (hnext ahead text hgood)

end Finds

/-! ### Spaces and numerals -/

theorem spaces_takeWhile (text : List Char) : Spaces (text.takeWhile isSpace) :=
  fun _ => List.mem_takeWhile_imp

theorem Spaces.append {spaces more : List Char} (h : Spaces spaces) (hmore : Spaces more) :
    Spaces (spaces ++ more) :=
  List.forall_mem_append.mpr ⟨h, hmore⟩

theorem digits_iff {text : List Char} {count : Nat} :
    Digits text count ↔ Text.readNumeral? text = some count := by
  rw [Text.readNumeral?_eq_some_iff]
  exact ⟨fun h => ⟨h.ne_nil, h.digits, h.value, h.limit⟩,
    fun ⟨hne, hdigits, hvalue, hlimit⟩ => ⟨hne, hdigits, hvalue, hlimit⟩⟩

theorem Digits.head_ne {text : List Char} {count : Nat} {sign : Char} (h : Digits text count)
    (hsign : sign.isDigit = false) : text.head? ≠ some sign := by
  intro hhead
  obtain ⟨rest, rfl⟩ := List.head?_eq_some_iff.mp hhead
  rw [h.digits sign List.mem_cons_self] at hsign
  cases hsign

theorem Numeral.head_ne {text : List Char} {count : Nat} (h : Numeral text count) :
    text.head? ≠ some '-' := by
  cases h with
  | unsigned hdigits => exact hdigits.head_ne rfl
  | signed hdigits => rintro ⟨⟩

theorem numeral_iff {text : List Char} {count : Nat} :
    Numeral text count ↔ Text.readSignedNumeral? text = some count := by
  constructor
  · intro h
    cases h with
    | unsigned hdigits =>
      rw [Text.readSignedNumeral?]
      · exact digits_iff.mp hdigits
      · rintro rest rfl
        exact hdigits.head_ne rfl rfl
    | signed hdigits => exact digits_iff.mp hdigits
  · intro h
    unfold Text.readSignedNumeral? at h
    split at h
    · exact .signed (digits_iff.mpr h)
    · exact .unsigned (digits_iff.mpr h)

end Grammar

namespace Pattern

variable {count : Nat} {children : List Pattern}

theorem threshold_of_atLeast {pattern : Pattern} (h : atLeast count children = .ok (some pattern)) :
    count ≤ children.length ∧ pattern = threshold count children := by
  rcases Nat.lt_or_ge children.length count with hlt | hle
  · rw [atLeast_of_lt hlt] at h
    cases h
  · refine ⟨hle, ?_⟩
    rcases atLeast_of_le hle with hread | ⟨fault, -, hread⟩
    · rw [hread] at h
      cases h
      rfl
    · rw [hread] at h
      cases h

theorem room_of_atLeast {fault : Fault} (h : atLeast count children = .error fault) :
    Selection.room children.length count = .error fault := by
  rcases Nat.lt_or_ge children.length count with hlt | hle
  · rw [atLeast_of_lt hlt] at h
    cases h
  · rcases atLeast_of_le hle with hread | ⟨other, hroom, hread⟩
    · rw [hread] at h
      cases h
    · rw [hread] at h
      cases h
      exact hroom

end Pattern

def Opening.symbol : Opening → Char
  | card => '['
  | name => '<'
  | group => '('
  | function => '@'

theorem Opening.eq_symbol {c : Char} {opening : Opening} (h : ofSymbol? c = some opening) :
    c = opening.symbol := by
  unfold ofSymbol? at h
  split at h <;> cases h <;> rfl

def Combinator.words : Combinator → List String
  | any => ["any"]
  | all => ["all"]
  | atLeast => ["xof", "atleast"]
  | absent => ["not"]

theorem Combinator.mem_words {word : String} {combinator : Combinator}
    (h : ofName? word = some combinator) : word ∈ combinator.words := by
  unfold ofName? at h
  split at h <;> cases h <;> decide

namespace Cursor

open Grammar

variable (cursor : Cursor)

/-! ### Marks, runs and counts -/

theorem rest_of_consume {cursor : Cursor} {c : Char} {accept : Char → Bool}
    (h : (cursor.consume c accept).1 = true) :
    cursor.rest = cursor.rest.takeWhile accept ++ c :: (cursor.consume c accept).2.rest := by
  rw [consume] at h ⊢
  split at h
  · next hcurrent =>
    rw [current, rest_skip] at hcurrent
    obtain ⟨rest, hrest⟩ := List.head?_eq_some_iff.mp hcurrent
    have hsplit := List.takeWhile_append_dropWhile (p := accept) (l := cursor.rest)
    rw [if_pos (by rwa [current, rest_skip]), rest_advance, rest_skip, hrest, List.tail_cons]
    rw [hrest] at hsplit
    exact hsplit.symm
  · cases h

theorem rest_of_not_consume {cursor : Cursor} {c : Char} {accept : Char → Bool}
    (h : (cursor.consume c accept).1 = false) :
    (cursor.consume c accept).2.rest = cursor.rest.dropWhile accept := by
  rw [consume] at h ⊢
  split at h
  · cases h
  · next hcurrent => rw [if_neg hcurrent, rest_skip]

/-- Where nothing is skipped, just the character itself is taken off. -/
theorem rest_eq_consume_never (c : Char) : cursor.rest =
    (if (cursor.consume c fun _ => false).1 then [c] else []) ++
      (cursor.consume c fun _ => false).2.rest := by
  cases hfound : (cursor.consume c fun _ => false).1 with
  | true =>
    have hrest := rest_of_consume hfound
    rw [takeWhile_never] at hrest
    exact hrest
  | false => rw [rest_of_not_consume hfound, dropWhile_never]; rfl

theorem rest_skip_isSpace :
    ∃ spaces, Spaces spaces ∧ cursor.rest = spaces ++ (cursor.skip isSpace).rest :=
  ⟨_, spaces_takeWhile cursor.rest, by rw [rest_skip, List.takeWhile_append_dropWhile]⟩

theorem finds_expect (expected : Char) (flaw : Flaw) :
    Finds cursor.rest (fun text _ => Mark expected text) (cursor.expect expected flaw) := by
  rw [expect]
  split
  · next hfound =>
    refine .read ?_ (.mk (spaces_takeWhile cursor.rest))
    rw [List.append_assoc, List.singleton_append]
    exact rest_of_consume hfound
  · exact Justified.refuse _ flaw

theorem rest_eq_readName : cursor.rest = cursor.readName.value ++ cursor.readName.next.rest := by
  change cursor.rest = cursor.rest.takeWhile _ ++ (cursor.readUntil isBracket).2.rest
  rw [rest_readUntil, List.takeWhile_append_dropWhile]

theorem run_readName : Run cursor.readName.value :=
  fun _ => not_bracket_of_mem_readName

theorem finds_readClosed (closing : Char) (empty unclosed : Flaw) :
    Finds cursor.rest (fun text name => Name name ∧ ∃ mark, Mark closing mark ∧ text = name ++ mark)
      (cursor.readClosed closing empty unclosed) := by
  rw [readClosed]
  split
  · exact Justified.refuse _ empty
  · next hvisible =>
    refine .append cursor.rest_eq_readName ?_
    apply (finds_expect _ closing unclosed).bind
    intro closed mark hmark
    refine .done ⟨⟨cursor.run_readName, ?_⟩, mark, hmark, by rw [List.append_nil]⟩
    rwa [List.isEmpty_iff] at hvisible

theorem finds_readCount :
    Finds cursor.rest Multiplicity cursor.readCount := by
  have hrest : cursor.rest =
      (cursor.readWhile Char.isDigit).1 ++ (cursor.readWhile Char.isDigit).2.rest := by
    rw [readWhile_fst, rest_readWhile, List.takeWhile_append_dropWhile]
  rw [readCount]
  split
  · next hempty =>
    refine .read hrest ?_
    rw [List.isEmpty_iff.mp hempty]
    exact .none
  · split
    · next count hcount => exact .read hrest (.digits (digits_iff.mpr hcount))
    · exact Justified.refuse _ _

theorem finds_readThreshold : Finds cursor.rest Argument cursor.readThreshold := by
  rw [readThreshold]
  apply (cursor.finds_expect _ _).bind
  intro opened opening hopening
  refine .append opened.next.rest_eq_readName ?_
  dsimp only
  apply (finds_expect _ _ _).bind
  intro closed closing hclosing
  split
  · exact Justified.refuse _ _
  · split
    · next count hcount =>
      refine .done ?_
      rw [List.append_nil]
      exact .mk hopening (run_readName _) (numeral_iff.mpr hcount) hclosing
    · exact Justified.refuse _ _

theorem finds_readOpening :
    Finds cursor.rest (fun text opening => Mark opening.symbol text) cursor.readOpening := by
  obtain ⟨spaces, hspaces, hskip⟩ := cursor.rest_skip_isSpace
  rw [readOpening]
  split
  · exact Justified.refuse _ _
  · next c rest hcons =>
    split
    · next opening hopening =>
      refine .read ?_ (.mk hspaces)
      rw [rest_advance, hcons, List.tail_cons, List.append_assoc, hskip, hcons,
        Opening.eq_symbol hopening]
      rfl
    · exact Justified.refuse _ _

theorem finds_readCombinator :
    Finds cursor.rest (fun text combinator => ∃ word ∈ combinator.words, Word word text)
      cursor.readCombinator := by
  rw [readCombinator]
  split
  · exact Justified.refuse _ _
  · split
    · next combinator hcombinator =>
      refine .read cursor.rest_eq_readName
        ⟨_, Combinator.mem_words hcombinator, cursor.run_readName, ?_⟩
      rw [String.toList_ofList]
    · exact Justified.refuse _ _

theorem finds_expectConnective (connective : Connective) :
    Finds cursor.rest (fun text _ => Joint connective text) (cursor.expectConnective connective) := by
  rw [expectConnective]
  apply (cursor.finds_expect _ _).bind
  intro first mark hmark
  refine .read (first.next.rest_eq_consume_never connective.symbol) ?_
  split
  · exact .twice hmark
  · rw [List.append_nil]
    exact .once hmark

end Cursor

open Grammar Cursor

/-! ### Patterns -/

theorem Grammar.Counted.after_spaces {spaces text : List Char} {pattern : Pattern} (h : Spaces spaces)
    (hcounted : Counted text pattern) : Counted (spaces ++ text) pattern := by
  cases hcounted with
  | mk hbefore hcount hatom hafter =>
    rw [← List.append_assoc]
    exact .mk (h.append hbefore) hcount hatom hafter

mutual

theorem readAtom_finds (cursor : Cursor) : Finds cursor.rest Atom (readAtom cursor) := by
  rw [readAtom]
  apply cursor.finds_readOpening.bind
  intro opening mark hmark
  have hopening := opening.shorter
  cases hvalue : opening.value with
  | card =>
    rw [hvalue] at hmark
    apply (finds_readClosed _ _ _ _).bind
    rintro name _ ⟨hname, closing, hclosing, rfl⟩
    refine .done ?_
    rw [List.append_nil]
    exact .card hmark hname hclosing
  | name =>
    rw [hvalue] at hmark
    apply (finds_readClosed _ _ _ _).bind
    rintro name _ ⟨hname, closing, hclosing, rfl⟩
    refine .done ?_
    rw [List.append_nil]
    exact .named hmark hname hclosing
  | group =>
    rw [hvalue] at hmark
    apply (readCompound_finds opening.next).bind
    intro compound text hcompound
    apply (finds_expect _ _ _).bind
    intro closed closing hclosing
    refine .done ?_
    rw [List.append_nil]
    exact .group hmark hcompound hclosing
  | function =>
    rw [hvalue] at hmark
    apply (readFunction_finds opening.next).bind
    intro function text hfunction
    refine .done ?_
    rw [List.append_nil]
    exact .function hmark hfunction
termination_by 4 * cursor.rest.length
decreasing_by all_goals omega

theorem readPattern_finds (cursor : Cursor) : Finds cursor.rest Counted (readPattern cursor) := by
  rw [readPattern]
  have hstart := cursor.length_rest_skip_le isSpace
  obtain ⟨before, hbefore, hskip⟩ := cursor.rest_skip_isSpace
  refine .append hskip ?_
  apply (cursor.skip isSpace).finds_readCount.bind
  intro count digits hcount
  have hshorter := count.shorter
  apply (readAtom_finds count.next).bind
  intro atom text hatom
  obtain ⟨after, hafter, hnext⟩ := atom.next.rest_skip_isSpace
  exact .read hnext (.mk hbefore hcount hatom hafter)
termination_by 4 * cursor.rest.length + 1
decreasing_by all_goals omega

theorem readCompound_finds (cursor : Cursor) : Finds cursor.rest Compound (readCompound cursor) := by
  rw [readCompound]
  split
  · exact Justified.refuse _ _
  · apply (readPattern_finds cursor).bind
    intro first text hfirst
    have hshorter := first.shorter
    dsimp only
    split
    · refine .done ?_
      rw [List.append_nil]
      exact .single hfirst
    · split
      · exact Justified.refuse _ _
      · next hend _ connective hconnective =>
        apply (readOperands_finds connective first.next).bind
        rintro others rest ⟨hothers, hne⟩
        refine .done ?_
        rw [List.append_nil]
        exact .joined hfirst hothers (hne hend)
termination_by 4 * cursor.rest.length + 2
decreasing_by all_goals omega

theorem readOperands_finds (connective : Connective) (cursor : Cursor) :
    Finds cursor.rest (fun text others => Operands connective text others ∧
      (¬cursor.atCompoundEnd = true → others ≠ [])) (readOperands connective cursor) := by
  rw [readOperands]
  split
  · next hend => exact .done ⟨.nil, fun hnot => absurd hend hnot⟩
  · apply (cursor.finds_expectConnective connective).bind
    intro start joint hjoint
    have hstart := start.shorter
    apply (readPattern_finds start.next).bind
    intro first text hfirst
    have hshorter := first.shorter
    apply (readOperands_finds connective first.next).bind
    rintro others rest ⟨hothers, -⟩
    refine .done ⟨?_, fun _ => List.cons_ne_nil _ _⟩
    rw [List.append_nil]
    exact .cons hjoint hfirst hothers
termination_by 4 * cursor.rest.length
decreasing_by all_goals omega

theorem readFunction_finds (cursor : Cursor) : Finds cursor.rest Function (readFunction cursor) := by
  rw [readFunction]
  apply cursor.finds_readCombinator.bind
  rintro combinator text ⟨word, hmem, hword⟩
  have hcombinator := combinator.shorter
  cases hvalue : combinator.value with
  | any =>
    rw [hvalue] at hmem
    obtain rfl := List.mem_singleton.mp hmem
    apply (readRow_finds combinator.next).bind
    intro row rowText hrow
    split
    · exact Justified.refuse _ _
    · next hne =>
      refine .done ?_
      rw [List.append_nil]
      exact .any hword hrow (mt List.isEmpty_iff.mpr hne)
  | all =>
    rw [hvalue] at hmem
    obtain rfl := List.mem_singleton.mp hmem
    apply (readRow_finds combinator.next).bind
    intro row rowText hrow
    split
    · exact Justified.refuse _ _
    · next hne =>
      refine .done ?_
      rw [List.append_nil]
      exact .all hword hrow (mt List.isEmpty_iff.mpr hne)
  | atLeast =>
    rw [hvalue] at hmem
    have hwords : Word "xof" text ∨ Word "atleast" text := by
      rcases List.mem_pair.mp hmem with rfl | rfl
      · exact .inl hword
      · exact .inr hword
    -- The argument and the row both matter for an overflow, so neither is taken off before it.
    apply ((finds_readThreshold combinator.next).within (List.nil_append _).symm).bind
    rintro threshold ⟨argument, hbefore, hargument⟩
    have hthreshold := threshold.shorter
    apply ((readRow_finds threshold.next).within hbefore).bind
    rintro row ⟨rowText, hrest, hrow⟩
    rw [List.nil_append, List.append_assoc] at hrest
    split
    · next fault hfault =>
      exact .fault
        ⟨[], argument, rowText, _, _, _, hrest, hargument, hrow, Pattern.room_of_atLeast hfault⟩
    · exact Justified.refuse _ _
    · next pattern hpattern =>
      obtain ⟨hle, rfl⟩ := Pattern.threshold_of_atLeast hpattern
      refine Finds.read (hrest.trans (List.append_assoc ..).symm) ?_
      exact .threshold hwords hargument hrow hle
  | absent =>
    rw [hvalue] at hmem
    obtain rfl := List.mem_singleton.mp hmem
    apply (readRow_finds combinator.next).bind
    intro row rowText hrow
    split
    · next child hchild =>
      refine .done ?_
      rw [List.append_nil]
      exact .absent hword (hchild ▸ hrow)
    · exact Justified.refuse _ _
termination_by 4 * cursor.rest.length + 1
decreasing_by all_goals omega

theorem readRow_finds (cursor : Cursor) : Finds cursor.rest Row (readRow cursor) := by
  rw [readRow]
  apply (cursor.finds_expect _ _).bind
  intro opened opening hopening
  have hopened := opened.shorter
  apply (readItems_finds opened.next).bind
  rintro items _ ⟨text, closing, hitems, hclosing, rfl⟩
  refine .done ?_
  rw [List.append_nil]
  exact .mk hopening hitems hclosing
termination_by 4 * cursor.rest.length
decreasing_by all_goals omega

theorem readItems_finds (cursor : Cursor) :
    Finds cursor.rest (fun text children => ∃ items closing, Items items children ∧ Mark ')' closing ∧
      text = items ++ closing) (readItems cursor) := by
  rw [readItems]
  split
  · next hclosed =>
    refine .read ?_ ⟨[], _, .nil, .mk (spaces_takeWhile cursor.rest), rfl⟩
    rw [List.nil_append, List.append_assoc, List.singleton_append]
    exact rest_of_consume hclosed
  · split
    · exact Justified.refuse _ _
    · have hstart := cursor.length_rest_skip_le isSpace
      obtain ⟨before, hbefore, hskip⟩ := cursor.rest_skip_isSpace
      refine .append hskip ?_
      apply (readPattern_finds (cursor.skip isSpace)).bind
      intro first text hfirst
      have hshorter := first.shorter
      apply (readItems_finds first.next).bind
      rintro others _ ⟨items, closing, hitems, hclosing, rfl⟩
      refine .done ⟨_, closing, .cons (hfirst.after_spaces hbefore) hitems, hclosing, ?_⟩
      simp
termination_by 4 * cursor.rest.length + 2
decreasing_by all_goals omega

end

theorem Cursor.closeCriterion_within (cursor : Cursor) (isCriterion : Bool) {line text : List Char}
    (hline : line = text ++ cursor.rest) :
    Justified line (fun next => ∃ second, line = text ++ second ++ next.rest ∧
      if isCriterion then Mark '>' second else second = []) (cursor.closeCriterion isCriterion) := by
  rw [closeCriterion]
  cases isCriterion with
  | true =>
    apply ((cursor.finds_expect _ _).within hline).bind
    rintro closed ⟨second, hrest, hsecond⟩
    exact .ok ⟨second, hrest, hsecond⟩
  | false => exact .ok ⟨[], by rw [List.append_nil, ← hline], rfl⟩

/-! ### Lines -/

namespace Declaration

/-- What is declared under a name by the compound that the rest of the line has to be. -/
def readBody (isCriterion : Bool) (name : List Char) (cursor : Cursor) :
    Except ReadFailure Declaration := do
  let compound ← readCompound cursor
  let rest := compound.next.skip isSpace
  if rest.atEnd then return ⟨String.ofList (Text.trim name), isCriterion, compound.value⟩
  else rest.refuse .trailing

/-- The line is refused before its compound begins, or all depends on the rest of it. -/
inductive Begun (line : List Char) (outcome : Except ReadFailure Declaration) : Prop
  | refuses (h : Refuses outcome) : Begun line outcome
  | body {isCriterion : Bool} {heading name colon : List Char} {cursor : Cursor}
      (hheading : Heading isCriterion heading name) (hcolon : Mark ':' colon)
      (hline : line = heading ++ (colon ++ cursor.rest))
      (hread : outcome = readBody isCriterion name cursor) : Begun line outcome

theorem Begun.bind {α : Type} {line : List Char} {first : Except ReadFailure α}
    {onward : α → Except ReadFailure Declaration} (h : BreaksOnly False first)
    (hnext : ∀ value, first = .ok value → Begun line (onward value)) :
    Begun line (first >>= onward) := by
  rcases h.refuses_or_ok with hrefuses | ⟨value, rfl⟩
  · exact .refuses hrefuses.bind
  · exact hnext value rfl

theorem read_begun (line : List Char) : Begun line (read line) := by
  rw [read]
  apply Begun.bind (breaksOnly_expect _ _ _)
  intro opened hopened
  obtain ⟨opening, hopened, hopening⟩ :=
    (((Cursor.ofText line).finds_expect _ _).within (List.nil_append line).symm).of_eq_ok hopened
  have hstart := opened.next.rest_eq_consume_never '<'
  generalize opened.next.consume '<' (fun _ => false) = consumed at hstart ⊢
  obtain ⟨isCriterion, start⟩ := consumed
  rw [hstart, start.rest_eq_readName] at hopened
  dsimp only
  split
  · exact .refuses (refuses_refuse _ _)
  · next hvisible =>
    have hname : Name start.readName.value := by
      refine ⟨start.run_readName, fun hblank => hvisible ?_⟩
      rw [hblank]
      rfl
    have hword : line = opening ++ (if isCriterion then ['<'] else []) ++ start.readName.value ++
        start.readName.next.rest := by
      rw [hopened, List.nil_append, List.append_assoc, List.append_assoc]
    apply Begun.bind (breaksOnly_expect _ _ _)
    intro closed hclosed
    obtain ⟨closing, hclosed, hclosing⟩ := ((finds_expect _ _ _).within hword).of_eq_ok hclosed
    apply Begun.bind (breaksOnly_closeCriterion _ _)
    intro after hafter
    obtain ⟨second, hafter, hsecond⟩ :=
      (closed.next.closeCriterion_within isCriterion hclosed).of_eq_ok hafter
    apply Begun.bind (breaksOnly_expect _ _ _)
    intro colon hcolon
    obtain ⟨mark, hcolon, hmark⟩ := ((finds_expect _ _ _).within hafter).of_eq_ok hcolon
    have hheading : Heading isCriterion (opening ++ ((if isCriterion then ['<'] else []) ++
        (start.readName.value ++ (closing ++ second)))) start.readName.value := by
      cases isCriterion with
      | true => exact .criterion hopening hname hclosing hsecond
      | false =>
        obtain rfl : second = [] := hsecond
        rw [List.append_nil]
        exact .plain hopening hname hclosing
    refine .body hheading hmark ?_ rfl
    rw [hcolon]
    simp only [List.append_assoc]

/-- A declaration that is read derives from the grammar. -/
theorem read_justified (line : List Char) : Justified line (Line line) (read line) := by
  cases read_begun line with
  | refuses h =>
    obtain ⟨diagnostic, hread⟩ := h
    rw [hread]
    exact .malformed
  | @body isCriterion heading name colon cursor hheading hcolon hline hread =>
    rw [hread, readBody]
    have hbefore : line = (heading ++ colon) ++ cursor.rest := by rw [hline, List.append_assoc]
    apply ((readCompound_finds cursor).within hbefore).bind
    rintro compound ⟨text, hcompound, htext⟩
    dsimp only
    split
    · next hend =>
      obtain ⟨spaces, hspaces, hskip⟩ := compound.next.rest_skip_isSpace
      rw [List.isEmpty_iff.mp hend, List.append_nil] at hskip
      rw [hcompound, hskip, List.append_assoc, List.append_assoc]
      exact .ok (.mk hheading hcolon htext hspaces)
    · exact Justified.refuse _ _

theorem line_of_read {line : List Char} {declaration : Declaration}
    (h : read line = .ok declaration) : Line line declaration := by
  have hsound := read_justified line
  rw [h] at hsound
  cases hsound with
  | ok hline => exact hline

theorem overflows_of_read {line : List Char} {fault : Fault}
    (h : read line = .error (.fault fault)) : Overflows line fault := by
  have hsound := read_justified line
  rw [h] at hsound
  cases hsound with
  | fault hoverflows => exact hoverflows

end Declaration

end OpeningHand
