import OpeningHand.Proofs.CardNames

/-!
# Reading the parts of a declaration

What the readers without recursion do where the text begins as they expect it: the value they give, and
the text they leave. Only the text in front of a cursor matters, never the line it stands on.
-/

namespace OpeningHand

section Outcomes

variable {bound : Nat} {α β : Type}

def Reads (value : α) (rest : List Char) (outcome : Except ReadFailure (Ahead bound α)) : Prop :=
  ∃ ahead, outcome = .ok ahead ∧ ahead.value = value ∧ ahead.next.rest = rest

def Refuses (outcome : Except ReadFailure α) : Prop :=
  ∃ diagnostic, outcome = .error (.malformed diagnostic)

theorem Reads.bind {first : Except ReadFailure (Ahead bound α)}
    {onward : Ahead bound α → Except ReadFailure β} {good : Except ReadFailure β → Prop} {value : α}
    {rest : List Char} (h : Reads value rest first)
    (hnext : ∀ next shorter, next.rest = rest → good (onward ⟨value, next, shorter⟩)) :
    good (first >>= onward) := by
  obtain ⟨⟨_, next, shorter⟩, rfl, rfl, hrest⟩ := h
  exact hnext next shorter hrest

theorem Refuses.bind {first : Except ReadFailure α} {next : α → Except ReadFailure β}
    (h : Refuses first) : Refuses (first >>= next) := by
  obtain ⟨diagnostic, rfl⟩ := h
  exact ⟨diagnostic, rfl⟩

theorem refuses_refuse (cursor : Cursor) (flaw : Flaw) :
    Refuses (cursor.refuse flaw : Except ReadFailure α) :=
  ⟨_, rfl⟩

/-- Only for this cause does the computation break off; a text that is refused is no such case. -/
structure BreaksOnly (cause : Prop) (outcome : Except ReadFailure α) : Prop where
  of_eq_fault : ∀ fault, outcome = .error (.fault fault) → cause

namespace BreaksOnly

variable {cause : Prop}

theorem ok (value : α) : BreaksOnly cause (.ok value) := by
  constructor
  rintro fault ⟨⟩

theorem refuse (cursor : Cursor) (flaw : Flaw) :
    BreaksOnly cause (cursor.refuse flaw : Except ReadFailure α) := by
  constructor
  rintro fault ⟨⟩

theorem imp {other : Prop} {outcome : Except ReadFailure α} (h : BreaksOnly cause outcome)
    (hcause : cause → other) : BreaksOnly other outcome :=
  ⟨fun fault hfault => hcause (h.of_eq_fault fault hfault)⟩

theorem bind {first : Except ReadFailure α} {onward : α → Except ReadFailure β}
    (h : BreaksOnly cause first)
    (hnext : ∀ value, first = .ok value → BreaksOnly cause (onward value)) :
    BreaksOnly cause (first >>= onward) := by
  cases first with
  | ok value => exact hnext value rfl
  | error failure =>
    constructor
    rintro fault ⟨⟩
    exact h.of_eq_fault fault rfl

/-- A computation that never breaks off has a value if it does not refuse the text. -/
theorem refuses_or_ok {outcome : Except ReadFailure α} (h : BreaksOnly False outcome) :
    Refuses outcome ∨ ∃ value, outcome = .ok value := by
  cases outcome with
  | ok value => exact .inr ⟨value, rfl⟩
  | error failure =>
    cases failure with
    | malformed diagnostic => exact .inl ⟨diagnostic, rfl⟩
    | fault fault => exact (h.of_eq_fault fault rfl).elim

end BreaksOnly

end Outcomes

theorem dropWhile_cons_of_not {accept : Char → Bool} {c : Char} (h : accept c = false)
    (rest : List Char) : (c :: rest).dropWhile accept = c :: rest := by
  rw [List.dropWhile_cons, h, if_neg Bool.false_ne_true]

section Runs

variable {accept : Char → Bool} {run rest : List Char}

/-- Accepted characters end where something else follows. -/
theorem takeWhile_append_of_stop (hrun : ∀ c ∈ run, accept c = true)
    (hstop : ∀ c ∈ rest.head?, accept c = false) : (run ++ rest).takeWhile accept = run := by
  rw [List.takeWhile_append_of_pos hrun]
  cases rest with
  | nil => exact List.append_nil run
  | cons c rest => simp [hstop c rfl]

theorem dropWhile_append_of_stop (hrun : ∀ c ∈ run, accept c = true)
    (hstop : ∀ c ∈ rest.head?, accept c = false) : (run ++ rest).dropWhile accept = rest := by
  rw [List.dropWhile_append_of_pos hrun]
  cases rest with
  | nil => rfl
  | cons c rest => exact dropWhile_cons_of_not (hstop c rfl) rest

end Runs

theorem takeWhile_never (text : List Char) : text.takeWhile (fun _ => false) = [] := by
  cases text <;> rfl

theorem dropWhile_never (text : List Char) : text.dropWhile (fun _ => false) = text := by
  cases text <;> rfl

/-! ### Numerals -/

namespace Text

theorem isDigit_of_mem_numeral {count : Nat} {c : Char} (h : c ∈ numeral count) : c.isDigit :=
  Nat.isDigit_of_mem_toDigits (by decide) (by decide) h

theorem numeral_ne_nil (count : Nat) : numeral count ≠ [] :=
  Nat.toDigits_ne_nil

theorem digitsValue_numeral (count : Nat) : digitsValue (numeral count) = count :=
  Nat.ofDigitChars_ten_toDigits

/-- A numeral is made of digits, and its value fits. -/
theorem readNumeral?_eq_some_iff {text : List Char} {count : Nat} : readNumeral? text = some count ↔
    text ≠ [] ∧ (∀ c ∈ text, c.isDigit = true) ∧ digitsValue text = count ∧ count < countLimit := by
  rw [readNumeral?]
  split
  · next hbad =>
    constructor
    · rintro ⟨⟩
    · rintro ⟨hne, hdigits, -, -⟩
      rw [List.all_eq_true.mpr hdigits, List.isEmpty_eq_false_iff.mpr hne] at hbad
      cases hbad
  · next hgood =>
    have hdigits : text ≠ [] ∧ ∀ c ∈ text, c.isDigit = true := by simpa using hgood
    dsimp only
    split
    · next hfits =>
      constructor
      · rintro ⟨⟩
        exact ⟨hdigits.1, hdigits.2, rfl, hfits⟩
      · rintro ⟨-, -, rfl, -⟩
        rfl
    · next hlarge =>
      constructor
      · rintro ⟨⟩
      · rintro ⟨-, -, rfl, hfits⟩
        exact absurd hfits hlarge

/-- The numeral of a count that fits is read as the count. -/
theorem readNumeral?_numeral {count : Nat} (h : count < countLimit) :
    readNumeral? (numeral count) = some count :=
  readNumeral?_eq_some_iff.mpr
    ⟨numeral_ne_nil count, fun _ => isDigit_of_mem_numeral, digitsValue_numeral count, h⟩

end Text

namespace Cursor

variable {cursor : Cursor} {c : Char} {rest : List Char}

/-! ### Single characters -/

theorem consume_expected {accept : Char → Bool} (h : cursor.rest.dropWhile accept = c :: rest) :
    ∃ next, cursor.consume c accept = (true, next) ∧ next.rest = rest := by
  have hcurrent : (cursor.skip accept).current = some c := by
    rw [current, rest_skip, h, List.head?_cons]
  refine ⟨(cursor.skip accept).advance, ?_, ?_⟩
  · exact if_pos hcurrent
  · rw [rest_advance, rest_skip, h, List.tail_cons]

theorem consume_other {accept : Char → Bool} (h : (cursor.rest.dropWhile accept).head? ≠ some c) :
    cursor.consume c accept = (false, cursor.skip accept) := by
  have hcurrent : (cursor.skip accept).current ≠ some c := by
    rw [current, rest_skip]
    exact h
  exact if_neg hcurrent

/-- Where nothing is skipped, the character is consumed exactly if it is there. -/
theorem consume_optional {text : List Char} (present : Bool) (htext : text.head? ≠ some c)
    (hrest : cursor.rest = (if present then [c] else []) ++ text) :
    ∃ next, cursor.consume c (fun _ => false) = (present, next) ∧ next.rest = text := by
  cases present with
  | true =>
    apply consume_expected
    rw [dropWhile_never, hrest]
    rfl
  | false =>
    refine ⟨_, consume_other ?_, ?_⟩
    · rw [dropWhile_never, hrest]
      exact htext
    · rw [rest_skip, dropWhile_never, hrest]
      rfl

theorem expect_reads (flaw : Flaw) (h : cursor.rest.dropWhile isSpace = c :: rest) :
    Reads () rest (cursor.expect c flaw) := by
  obtain ⟨next, hconsume, hrest⟩ := consume_expected h
  have hfound : (cursor.consume c isSpace).1 = true := by rw [hconsume]
  rw [expect, dif_pos hfound]
  refine ⟨_, rfl, rfl, ?_⟩
  change (cursor.consume c isSpace).2.rest = rest
  rw [hconsume, hrest]

theorem expect_reads_next (flaw : Flaw) (h : cursor.rest = c :: rest) (hspace : isSpace c = false) :
    Reads () rest (cursor.expect c flaw) :=
  expect_reads flaw (by rw [h, dropWhile_cons_of_not hspace])

/-- A connective is read where it stands twice. -/
theorem expectConnective_reads (connective : Connective)
    (h : cursor.rest.dropWhile isSpace = connective.symbol :: connective.symbol :: rest) :
    Reads () rest (cursor.expectConnective connective) := by
  rw [expectConnective]
  apply (expect_reads _ h).bind
  intro next shorter hnext
  have hsecond : next.rest.dropWhile (fun _ => false) = connective.symbol :: rest := by
    rw [dropWhile_never, hnext]
  obtain ⟨last, hlast, hrest⟩ := consume_expected hsecond
  refine ⟨_, rfl, rfl, ?_⟩
  change (next.consume connective.symbol fun _ => false).2.rest = rest
  rw [hlast, hrest]

theorem readOpening_reads {opening : Opening} (h : cursor.rest.dropWhile isSpace = c :: rest)
    (hc : Opening.ofSymbol? c = some opening) : Reads opening rest cursor.readOpening := by
  have hskip : (cursor.skip isSpace).rest = c :: rest := by rw [rest_skip, h]
  rw [readOpening]
  split
  · next hnil => rw [hskip] at hnil; cases hnil
  · next other others hcons =>
    obtain ⟨rfl, rfl⟩ := List.cons.inj (hskip.symm.trans hcons)
    split
    · next found hfound =>
      obtain rfl : opening = found := Option.some.inj (hc.symm.trans hfound)
      refine ⟨_, rfl, rfl, ?_⟩
      rw [rest_advance, hskip, List.tail_cons]
    · next hnone => rw [hc] at hnone; cases hnone

theorem readOpening_refuses (h : cursor.rest.dropWhile isSpace = c :: rest)
    (hc : Opening.ofSymbol? c = none) : Refuses cursor.readOpening := by
  have hskip : (cursor.skip isSpace).rest = c :: rest := by rw [rest_skip, h]
  rw [readOpening]
  split
  · exact refuses_refuse _ _
  · next other others hcons =>
    obtain ⟨rfl, rfl⟩ := List.cons.inj (hskip.symm.trans hcons)
    split
    · next found hfound => rw [hc] at hfound; cases hfound
    · exact refuses_refuse _ _

/-! ### Names and counts -/

section Names

variable {name : List Char}

theorem value_readName (hrest : cursor.rest = name ++ c :: rest)
    (hname : ∀ c ∈ name, isBracket c = false) (hc : isBracket c = true) :
    cursor.readName.value = name := by
  have haccept : ∀ c ∈ name, (!isBracket c) = true := fun c hmem => by rw [hname c hmem]; rfl
  change cursor.rest.takeWhile (fun c => !isBracket c) = name
  rw [hrest]
  exact takeWhile_append_of_stop haccept (by simp [hc])

theorem rest_readName (hrest : cursor.rest = name ++ c :: rest)
    (hname : ∀ c ∈ name, isBracket c = false) (hc : isBracket c = true) :
    cursor.readName.next.rest = c :: rest := by
  have haccept : ∀ c ∈ name, (!isBracket c) = true := fun c hmem => by rw [hname c hmem]; rfl
  change (cursor.readUntil isBracket).2.rest = c :: rest
  rw [rest_readUntil, hrest]
  exact dropWhile_append_of_stop haccept (by simp [hc])

theorem readClosed_reads {closing : Char} (empty unclosed : Flaw)
    (hrest : cursor.rest = name ++ closing :: rest) (hvisible : Text.trim name ≠ [])
    (hname : ∀ c ∈ name, isBracket c = false) (hclosing : isBracket closing = true)
    (hspace : isSpace closing = false) :
    Reads name rest (cursor.readClosed closing empty unclosed) := by
  have hvalue := value_readName hrest hname hclosing
  have hempty : (Text.trim cursor.readName.value).isEmpty = false := by
    rw [hvalue]
    exact List.isEmpty_eq_false_iff.mpr hvisible
  have hnext := rest_readName hrest hname hclosing
  rw [readClosed, hempty, if_neg Bool.false_ne_true]
  apply (expect_reads_next unclosed hnext hspace).bind
  intro next shorter hrest
  exact ⟨_, rfl, hvalue, hrest⟩

end Names

theorem readWhile_digits {digits : List Char} (hrest : cursor.rest = digits ++ rest)
    (hdigits : ∀ c ∈ digits, c.isDigit = true) (hstop : ∀ c ∈ rest.head?, c.isDigit = false) :
    (cursor.readWhile Char.isDigit).1 = digits ∧ (cursor.readWhile Char.isDigit).2.rest = rest := by
  rw [readWhile_fst, rest_readWhile, hrest]
  exact ⟨takeWhile_append_of_stop hdigits hstop, dropWhile_append_of_stop hdigits hstop⟩

theorem readCount_reads {digits : List Char} {count : Nat} (hrest : cursor.rest = digits ++ rest)
    (hread : Text.readNumeral? digits = some count) (hstop : ∀ c ∈ rest.head?, c.isDigit = false) :
    Reads count rest cursor.readCount := by
  obtain ⟨hne, hdigits, -, -⟩ := Text.readNumeral?_eq_some_iff.mp hread
  obtain ⟨hvalue, hnext⟩ := readWhile_digits hrest hdigits hstop
  rw [← hvalue] at hread
  have hempty : (cursor.readWhile Char.isDigit).1.isEmpty = false := by
    rw [hvalue]
    exact List.isEmpty_eq_false_iff.mpr hne
  rw [readCount, hempty, if_neg Bool.false_ne_true]
  split
  · next found hfound =>
    obtain rfl : count = found := Option.some.inj (hread.symm.trans hfound)
    exact ⟨_, rfl, rfl, hnext⟩
  · next hnone => rw [hread] at hnone; cases hnone

theorem readCount_reads_one (hstop : ∀ c ∈ cursor.rest.head?, c.isDigit = false) :
    Reads 1 cursor.rest cursor.readCount := by
  have hnone : cursor.rest.takeWhile Char.isDigit = [] := by
    cases hrest : cursor.rest with
    | nil => rfl
    | cons c rest => rw [List.takeWhile_cons, hstop c (by rw [hrest]; rfl), if_neg Bool.false_ne_true]
  have hempty : (cursor.readWhile Char.isDigit).1.isEmpty = true := by
    rw [readWhile_fst, hnone]
    rfl
  have hnext : (cursor.readWhile Char.isDigit).2.rest = cursor.rest := by
    have hsplit := List.takeWhile_append_dropWhile (p := Char.isDigit) (l := cursor.rest)
    rw [hnone] at hsplit
    rw [rest_readWhile]
    exact hsplit
  rw [readCount, hempty, if_pos rfl]
  exact ⟨_, rfl, rfl, hnext⟩

theorem readCombinator_reads_absent (hrest : cursor.rest = "not".toList ++ '(' :: rest) :
    Reads .absent ('(' :: rest) cursor.readCombinator := by
  have hchecked : "not".toList.any isBracket = false := by decide
  have hname : ∀ c ∈ "not".toList, isBracket c = false := by
    intro c hc
    exact Bool.eq_false_iff.mpr (List.any_eq_false.mp hchecked c hc)
  have hvalue := value_readName hrest hname rfl
  have hnext := rest_readName hrest hname rfl
  have hword : String.ofList (Text.trim cursor.readName.value) = "not" := by
    rw [hvalue]
    decide
  rw [readCombinator, hword, if_neg (by decide)]
  exact ⟨_, rfl, rfl, hnext⟩

/-! ### No part breaks off -/

section BreaksOnly

variable (cursor : Cursor) {cause : Prop}

theorem breaksOnly_expect (expected : Char) (flaw : Flaw) :
    BreaksOnly cause (cursor.expect expected flaw) := by
  rw [expect]
  split
  · exact .ok _
  · exact .refuse _ flaw

theorem breaksOnly_readClosed (closing : Char) (empty unclosed : Flaw) :
    BreaksOnly cause (cursor.readClosed closing empty unclosed) := by
  rw [readClosed]
  split
  · exact .refuse _ empty
  · exact (breaksOnly_expect _ closing unclosed).bind fun _ _ => .ok _

theorem breaksOnly_readCount : BreaksOnly cause cursor.readCount := by
  rw [readCount]
  split
  · exact .ok _
  · split
    · exact .ok _
    · exact .refuse _ _

theorem breaksOnly_readThreshold : BreaksOnly cause cursor.readThreshold := by
  rw [readThreshold]
  apply (breaksOnly_expect _ _ _).bind
  intro opened _
  apply (breaksOnly_expect _ _ _).bind
  intro closed _
  dsimp only
  split
  · exact .refuse _ _
  · split
    · exact .ok _
    · exact .refuse _ _

theorem breaksOnly_readOpening : BreaksOnly cause cursor.readOpening := by
  rw [readOpening]
  split
  · exact .refuse _ _
  · split
    · exact .ok _
    · exact .refuse _ _

theorem breaksOnly_readCombinator : BreaksOnly cause cursor.readCombinator := by
  rw [readCombinator]
  split
  · exact .refuse _ _
  · split
    · exact .ok _
    · exact .refuse _ _

theorem breaksOnly_expectConnective (connective : Connective) :
    BreaksOnly cause (cursor.expectConnective connective) := by
  rw [expectConnective]
  exact (breaksOnly_expect _ _ _).bind fun _ _ => .ok _

theorem breaksOnly_closeCriterion (isCriterion : Bool) :
    BreaksOnly cause (cursor.closeCriterion isCriterion) := by
  rw [closeCriterion]
  cases isCriterion with
  | true => exact (breaksOnly_expect _ _ _).bind fun _ _ => .ok _
  | false => exact .ok _

end BreaksOnly

end Cursor

end OpeningHand
