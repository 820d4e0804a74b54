import Mathlib
import OpeningHand.DeckList
import OpeningHand.Proofs.RuleTexts

/-!
# Deck lists and rules name the same cards

A line of a deck list is written in parts: where the card goes, how many copies there are, an edition, and the
name. Whatever the name begins with, the parts are read back as they were written, since the digits of the
count end at a blank and the edition at a bracket. The card is the one that a rule means with the same name
between brackets.
-/

namespace OpeningHand

open Grammar

namespace Text

variable {text blanks : List Char}

/-! ### Trimmed text -/

/-- A text has blanks around its trimmed text. -/
theorem exists_eq_append_trim (text : List Char) : ∃ before after : List Char,
    (∀ c ∈ before, isBlank c = true) ∧ (∀ c ∈ after, isBlank c = true) ∧
      text = before ++ (trim text ++ after) := by
  refine ⟨text.takeWhile isBlank, (trimStart text).rtakeWhile isBlank,
    fun c hc => List.mem_takeWhile_imp hc, fun c hc => List.mem_rtakeWhile_imp hc, ?_⟩
  rw [trim, trimEnd_eq_rdropWhile, List.rdropWhile_append_rtakeWhile, trimStart,
    List.takeWhile_append_dropWhile]

theorem Trimmed.trimStart_append (h : Trimmed text) (hblanks : ∀ c ∈ blanks, isBlank c = true) :
    trimStart (blanks ++ text) = text :=
  dropWhile_append_of_stop hblanks h.head

/-! ### Digits -/

theorem isBlank_of_isDigit {c : Char} (h : c.isDigit = true) : isBlank c = false := by
  obtain ⟨hlow, hhigh⟩ : 48 ≤ c.toNat ∧ c.toNat ≤ 57 := Char.isDigit_iff_toNat.mp h
  simp only [isBlank, Bool.or_eq_false_iff, Bool.and_eq_false_iff, decide_eq_false_iff_not,
    beq_eq_false_iff_ne]
  omega

/-! ### Lowercase -/

private theorem lowerRuns_above : lowerRuns.all (fun run => 0x41 ≤ run.first) = true := by
  decide

/-- Below the capital letters, every character is its own lowercase. -/
theorem lowerCode_of_lt {code : ℕ} (h : code < 0x41) : lowerCode code = code := by
  have hnone : lowerRuns.find? (·.covers code) = none := by
    rw [List.find?_eq_none]
    intro run hrun hcovers
    have habove := List.all_eq_true.mp lowerRuns_above run hrun
    simp only [LowerRun.covers, Bool.and_eq_true, decide_eq_true_eq] at habove hcovers
    omega
  rw [lowerCode, hnone]

theorem lowerChar_of_isDigit {c : Char} (h : c.isDigit = true) : lowerChar c = [c] := by
  have hdotted : c ≠ 'İ' := by
    rintro rfl
    cases h
  have hcode : c.toNat < 0x41 := Nat.lt_of_le_of_lt (Char.isDigit_iff_toNat.mp h).2 (by decide)
  rw [lowerChar, if_neg hdotted, lowerCode_of_lt hcode, Char.ofNat_toNat]

end Text

namespace DeckEntry

variable {text : List Char}

/-! ### The parts of a line -/

theorem splitSide_mark (h : ∀ c ∈ text.head?, Text.isBlank c = false) :
    splitSide ("SB: ".toList ++ text) = (false, text) := by
  have hspace : ∀ c ∈ [' '], Text.isBlank c = true := List.forall_mem_singleton.mpr rfl
  have hstart : Text.trimStart (' ' :: text) = text := dropWhile_append_of_stop hspace h
  change (false, Text.trimStart (' ' :: text)) = (false, text)
  rw [hstart]

theorem splitSide_of_isDigit {c : Char} (h : c.isDigit = true) (text : List Char) :
    splitSide (c :: text) = (true, c :: text) := by
  have hne : c ≠ 'S' := by
    rintro rfl
    cases h
  rw [splitSide.eq_def]
  split <;> simp_all

/-- A numeral is the number of copies if a blank follows it, or an x and a blank. -/
theorem splitCount_numeral {count : ℕ} (h : count < countLimit) (crossed : Bool) (text : List Char) :
    splitCount (Text.numeral count ++ ((if crossed then ['x'] else []) ++ ' ' :: text)) =
      (count, Text.trimStart text) := by
  have hdigits : ∀ c ∈ Text.numeral count, c.isDigit = true := fun c hc => Text.isDigit_of_mem_numeral hc
  have hstop : ∀ c ∈ ((if crossed then ['x'] else []) ++ ' ' :: text).head?, c.isDigit = false := by
    cases crossed <;> simp
  rw [splitCount, takeWhile_append_of_stop hdigits hstop, dropWhile_append_of_stop hdigits hstop,
    Text.readNumeral?_numeral h]
  cases crossed <;> rfl

/-- An edition goes up to the last bracket. -/
theorem splitEdition_bracketed (edition : List Char) (h : ']' ∉ text) (hname : Text.trimStart text ≠ []) :
    splitEdition ('[' :: (edition ++ ']' :: text)) = (some edition, Text.trimStart text) := by
  -- The bracket is looked for from the end, where the name stands in reverse.
  have hopen : ∀ c ∈ text.reverse, (c != ']') = true := by
    intro c hc
    rw [bne_iff_ne]
    rintro rfl
    exact h (List.mem_reverse.mp hc)
  have hstop : ∀ c ∈ (']' :: edition.reverse).head?, (c != ']') = false := by simp
  have hreverse : (edition ++ ']' :: text).reverse = text.reverse ++ ']' :: edition.reverse := by simp
  rw [splitEdition, hreverse, takeWhile_append_of_stop hopen hstop, dropWhile_append_of_stop hopen hstop]
  simp [hname]

theorem splitEdition_of_head?_ne (h : text.head? ≠ some '[') : splitEdition text = (none, text) := by
  rw [splitEdition.eq_def]
  split
  · exact absurd rfl h
  · rfl

end DeckEntry

/-! ### The written form of a line -/

/-- A line of a deck list in its parts. A crossed count has an x behind it. -/
structure DeckLine where
  onSide : Bool
  count : ℕ
  crossed : Bool
  edition : Option (List Char)
  name : List Char

namespace DeckLine

def label : Option (List Char) → List Char
  | none => []
  | some edition => '[' :: (edition ++ "] ".toList)

def render (line : DeckLine) : List Char :=
  (if line.onSide then "SB: ".toList else []) ++ (Text.numeral line.count ++
    ((if line.crossed then ['x'] else []) ++ ' ' :: (label line.edition ++ line.name)))

/-- The count fits the machine, the name can be seen and has no brackets, and there is no line feed anywhere. -/
structure Plain (line : DeckLine) : Prop where
  count_lt : line.count < countLimit
  name : Name line.name
  name_unbroken : '\n' ∉ line.name
  edition_unbroken : ∀ edition ∈ line.edition, '\n' ∉ edition

variable {line : DeckLine} {text : List Char}

theorem render_append (line : DeckLine) (text : List Char) :
    { line with name := line.name ++ text }.render = line.render ++ text := by
  simp [render]

theorem render_eq_append (line : DeckLine) : line.render =
    (if line.onSide then "SB: ".toList else []) ++ { line with onSide := false }.render := by
  simp [render]

/-- Without a mark of the side, a line begins with a digit of the count. -/
theorem exists_render_eq_digit (line : DeckLine) (h : line.onSide = false) :
    ∃ c rest, line.render = c :: rest ∧ c.isDigit = true := by
  obtain ⟨c, digits, hnumeral⟩ := List.exists_cons_of_ne_nil (Text.numeral_ne_nil line.count)
  refine ⟨c, digits ++ ((if line.crossed then ['x'] else []) ++ ' ' :: (label line.edition ++ line.name)), ?_,
    Text.isDigit_of_mem_numeral (hnumeral ▸ List.mem_cons_self)⟩
  rw [render, h, hnumeral]
  rfl

theorem exists_render_eq_cons (line : DeckLine) :
    ∃ c rest, line.render = c :: rest ∧ (c.isDigit = true ∨ c = 'S') := by
  cases hside : line.onSide with
  | true => exact ⟨'S', _, by rw [render_eq_append, hside]; rfl, .inr rfl⟩
  | false =>
    obtain ⟨c, rest, hrender, hdigit⟩ := exists_render_eq_digit line hside
    exact ⟨c, rest, hrender, .inl hdigit⟩

theorem trimmed_render (h : Text.Trimmed text) (hne : text ≠ []) (line : DeckLine) :
    Text.Trimmed { line with name := line.name ++ text }.render := by
  constructor
  · intro c hc
    obtain ⟨first, rest, hrender, hfirst⟩ :=
      exists_render_eq_cons { line with name := line.name ++ text }
    rw [hrender] at hc
    obtain rfl : first = c := Option.some.inj hc
    rcases hfirst with hdigit | rfl
    · exact Text.isBlank_of_isDigit hdigit
    · rfl
  · rw [render_append, List.getLast?_append_of_ne_nil _ hne]
    exact h.last

/-- Trimming a line only takes off the blanks behind its name. -/
theorem exists_trim_render (h : Text.trim line.name ≠ []) :
    ∃ before : List Char, (∀ c ∈ before, Text.isBlank c = true) ∧
      Text.trim line.render = { line with name := before ++ Text.trim line.name }.render := by
  obtain ⟨before, after, hbefore, hafter, hname⟩ := Text.exists_eq_append_trim line.name
  refine ⟨before, hbefore, ?_⟩
  have htrimmed := trimmed_render (Text.trimmed_trim line.name) h { line with name := before }
  calc Text.trim line.render
      = Text.trim ({ line with name := before ++ Text.trim line.name }.render ++ after) := by
        rw [← render_append, List.append_assoc, ← hname]
    _ = Text.trim { line with name := before ++ Text.trim line.name }.render :=
        Text.trim_append_of_blank hafter _
    _ = _ := htrimmed.trim_eq

theorem isComment_render (line : DeckLine) : Text.isComment line.render = false := by
  obtain ⟨c, rest, hrender, hc⟩ := line.exists_render_eq_cons
  have hnumberSign : c ≠ '#' := by
    rintro rfl
    exact absurd hc (by decide)
  have hslash : c ≠ '/' := by
    rintro rfl
    exact absurd hc (by decide)
  rw [hrender]
  simp [Text.isComment, List.isPrefixOf, hnumberSign.symm, hslash.symm]

theorem splitSide_render (line : DeckLine) : DeckEntry.splitSide line.render =
    (!line.onSide, { line with onSide := false }.render) := by
  obtain ⟨c, rest, hrender, hdigit⟩ :=
    exists_render_eq_digit { line with onSide := false } rfl
  rw [render_eq_append, hrender]
  cases line.onSide with
  | true => exact DeckEntry.splitSide_mark (by simpa using Text.isBlank_of_isDigit hdigit)
  | false => exact DeckEntry.splitSide_of_isDigit hdigit rest

/-- Behind the label, the name is all that is left. -/
theorem splitEdition_label {before name : List Char} (hbefore : ∀ c ∈ before, Text.isBlank c = true)
    (hname : Text.Nameable name) (edition : Option (List Char)) :
    DeckEntry.splitEdition (Text.trimStart (label edition ++ (before ++ name))) = (edition, name) := by
  cases edition with
  | none =>
    rw [label, List.nil_append, hname.trimmed.trimStart_append hbefore]
    apply DeckEntry.splitEdition_of_head?_ne
    intro hhead
    have hbracket := hname.unbracketed '[' (List.mem_of_mem_head? hhead)
    cases hbracket
  | some edition =>
    have hblanks : ∀ c ∈ ' ' :: before, Text.isBlank c = true := List.forall_mem_cons.mpr ⟨rfl, hbefore⟩
    have hstart : Text.trimStart ((' ' :: before) ++ name) = name := hname.trimmed.trimStart_append hblanks
    have hopen : ']' ∉ (' ' :: before) ++ name := by
      intro hmem
      rcases List.mem_append.mp hmem with hmem | hmem
      · cases hblanks ']' hmem
      · cases hname.unbracketed ']' hmem
    have hlabel : label (some edition) ++ (before ++ name) =
        '[' :: (edition ++ ']' :: ((' ' :: before) ++ name)) := by simp [label]
    have hvisible : Text.isBlank '[' = false := rfl
    rw [hlabel, Text.trimStart_cons, hvisible, if_neg Bool.false_ne_true,
      DeckEntry.splitEdition_bracketed edition hopen (hstart.symm ▸ hname.ne_nil), hstart]

/-- A line is read as its parts. -/
theorem read?_render (h : line.Plain) :
    DeckEntry.read? line.render = some ⟨!line.onSide, line.edition, line.count, .ofName line.name⟩ := by
  obtain ⟨before, hbefore, htrim⟩ := exists_trim_render h.name.visible
  have hname := Text.nameable_trim h.name.visible h.name.run
  have hempty : (Text.trim line.name).isEmpty = false := by simpa using hname.ne_nil
  have hcard : Card.ofName (Text.trim line.name) = Card.ofName line.name := by
    rw [Card.ofName, Card.ofName, hname.trimmed.trim_eq]
  rw [DeckEntry.read?, htrim, isComment_render, if_neg Bool.false_ne_true, splitSide_render]
  dsimp only
  rw [render, if_neg Bool.false_ne_true, List.nil_append, DeckEntry.splitCount_numeral h.count_lt]
  dsimp only
  rw [splitEdition_label hbefore hname]
  dsimp only
  rw [hempty, if_neg Bool.false_ne_true, hcard]

theorem lowercase_render (line : DeckLine) :
    "sideboard".toList.isPrefixOf (Text.lowercase line.render) = false := by
  cases hside : line.onSide with
  | true =>
    rw [render_eq_append, hside]
    have hs : Text.lowerChar 'S' = ['s'] := by decide
    have hb : Text.lowerChar 'B' = ['b'] := by decide
    simp [Text.lowercase, Text.lowercaseAfter, hs, hb, List.isPrefixOf]
  | false =>
    obtain ⟨c, rest, hrender, hdigit⟩ := exists_render_eq_digit line hside
    have hne : 's' ≠ c := by
      rintro rfl
      cases hdigit
    have hsigma : c ≠ 'Σ' := by
      rintro rfl
      cases hdigit
    rw [hrender]
    simp [Text.lowercase, Text.lowercaseAfter, hsigma, Text.lowerChar_of_isDigit hdigit, List.isPrefixOf, hne]

/-- No line of this form begins the side. -/
theorem not_isSideHeader_render (h : Text.trim line.name ≠ []) :
    DeckList.isSideHeader line.render = false := by
  obtain ⟨before, -, htrim⟩ := exists_trim_render h
  rw [DeckList.isSideHeader, htrim, lowercase_render]

theorem Plain.render_unbroken (h : line.Plain) : '\n' ∉ line.render := by
  have hside : '\n' ∉ (if line.onSide then "SB: ".toList else []) := by
    cases line.onSide <;> decide
  have hcount : '\n' ∉ Text.numeral line.count := by
    intro hmem
    cases Text.isDigit_of_mem_numeral hmem
  have hcross : '\n' ∉ (if line.crossed then ['x'] else []) := by
    cases line.crossed <;> decide
  have hlabel : '\n' ∉ label line.edition := by
    cases hedition : line.edition with
    | none => exact List.not_mem_nil
    | some edition => simpa [label] using h.edition_unbroken edition hedition
  simp only [render, List.mem_append, List.mem_cons, not_or]
  exact ⟨hside, hcount, hcross, by decide, hlabel, h.name_unbroken⟩

theorem read_render (h : line.Plain) : DeckList.read line.render =
    if line.onSide then ⟨.empty, ⟨.replicate line.count (.ofName line.name)⟩⟩
    else ⟨⟨.replicate line.count (.ofName line.name)⟩, .empty⟩ := by
  obtain ⟨c, rest, hcons, -⟩ := line.exists_render_eq_cons
  have hne : line.render ≠ [] := hcons ▸ List.cons_ne_nil c rest
  rw [DeckList.read, Text.lines_of_unbroken h.render_unbroken, if_neg hne, DeckList.collect,
    not_isSideHeader_render h.name.visible, if_neg Bool.false_ne_true, read?_render h]
  cases line.onSide <;> simp [DeckEntry.copies, Pile.empty]

end DeckLine

/-! ### The same card in a rule -/

/-- Selections are only asked for with parentheses. -/
theorem Grammar.Overflows.mem_line {line : List Char} {fault : Fault} (h : Overflows line fault) :
    '(' ∈ line := by
  obtain ⟨before, argument, row, after, count, children, rfl, hargument, -, -⟩ := h
  cases hargument with
  | mk hopening hrun hcount hclosing =>
    cases hopening with
    | mk hspaces => simp

namespace Declaration

/-- A name between brackets is a line's only pattern, and there is nothing in the line that could overflow. -/
theorem read_card {heading name : List Char} (hheading : Name heading) (hname : Name name) :
    read ('<' :: (heading ++ (">: [".toList ++ (name ++ [']'])))) =
      .ok ⟨String.ofList (Text.trim heading), false, .card (.ofName name)⟩ := by
  have hnone : Spaces [] := List.forall_mem_nil _
  have hspace : Spaces [' '] := List.forall_mem_singleton.mpr rfl
  have hline : Line ('<' :: (heading ++ (">: [".toList ++ (name ++ [']']))))
      ⟨String.ofList (Text.trim heading), false, .card (.ofName name)⟩ := by
    have hatom := Atom.card (.mk hnone) hname (.mk hnone)
    have hcompound := Compound.single (Counted.mk hspace .none hatom hnone)
    have hderived := Line.mk (.plain (.mk hnone) hheading (.mk hnone)) (.mk hnone) hcompound hnone
    simpa [Pattern.repeated, Pattern.ofCardName] using hderived
  rcases read_of_line hline with hread | ⟨fault, hfault⟩
  · exact hread
  · have hopen := (overflows_of_read hfault).mem_line
    simp only [List.mem_cons, List.mem_append] at hopen
    rcases hopen with ⟨⟨⟩⟩ | hopen | hopen | hopen | hopen
    · cases hheading.run '(' hopen
    · exact absurd hopen (by decide)
    · cases hname.run '(' hopen
    · rcases hopen with ⟨⟨⟩⟩ | ⟨⟨⟩⟩

end Declaration

namespace DeckLine

variable {line : DeckLine}

/-- A line of a deck list is read as its parts, and its card is the one that a rule means with the same name
between brackets. As the only line of a list it puts that many copies of the card where it says, and nothing
elsewhere. -/
theorem render_lists_declared_card (h : line.Plain) {heading : List Char} (hheading : Name heading) :
    Declaration.read ('<' :: (heading ++ (">: [".toList ++ (line.name ++ [']'])))) =
        .ok ⟨String.ofList (Text.trim heading), false, .card (.ofName line.name)⟩ ∧
      DeckEntry.read? line.render =
        some ⟨!line.onSide, line.edition, line.count, .ofName line.name⟩ ∧
      DeckList.read line.render =
        if line.onSide then ⟨.empty, ⟨.replicate line.count (.ofName line.name)⟩⟩
        else ⟨⟨.replicate line.count (.ofName line.name)⟩, .empty⟩ :=
  ⟨Declaration.read_card hheading h.name, read?_render h, read_render h⟩

/-- A name that looks like the beginning of another line. -/
def hiddenLine : DeckLine :=
  ⟨true, 3, true, some "x[2".toList, " 2x SB: # İ ".toList⟩

theorem render_lists_declared_card_hidden :
    (hiddenLine.render = "SB: 3x [x[2]  2x SB: # İ ".toList ∧ hiddenLine.Plain ∧ Name "a b".toList) ∧
      Declaration.read "<a b>: [ 2x SB: # İ ]".toList =
        .ok ⟨"a b", false, .card "2x sb: # i\u0307"⟩ ∧
      DeckEntry.read? hiddenLine.render =
        some ⟨false, some "x[2".toList, 3, "2x sb: # i\u0307"⟩ ∧
      DeckList.read hiddenLine.render = ⟨.empty, ⟨.replicate 3 "2x sb: # i\u0307"⟩⟩ := by
  have hplain : hiddenLine.Plain := by
    refine ⟨by decide, ⟨by simp [Run, hiddenLine, isBracket], by decide⟩, by decide, ?_⟩
    rintro edition ⟨⟩
    decide
  have hheading : Name "a b".toList := ⟨by simp [Run, isBracket], by decide⟩
  have hcard : Card.ofName hiddenLine.name = "2x sb: # i\u0307" := by decide +kernel
  obtain ⟨hread, hentry, hlist⟩ := render_lists_declared_card hplain hheading
  rw [hcard] at hread hentry hlist
  exact ⟨⟨by decide, hplain, hheading⟩, hread, hentry, hlist⟩

end DeckLine

end OpeningHand
