import Mathlib
import OpeningHand.Proofs.DeckLines

/-!
# The cards of a deck list

Only what can be seen of a line counts, so that a text falls apart at any line feed. What is in front of it is
read as if it were alone. What is behind it is read alike, unless the side begins in front of it: then all
cards behind it are on the side. Every copy that a line asks for is put in one of the two piles, under a name
that stays the same however often it is read.
-/

namespace OpeningHand

namespace Text

variable {line rest : List Char}

/-! ### What can be seen of lines -/

/-- The lines without the blanks around them; those without anything else are left out. -/
def visible (lines : List (List Char)) : List (List Char) :=
  (lines.map trim).filter (!·.isEmpty)

theorem visible_cons (line : List Char) (lines : List (List Char)) :
    visible (line :: lines) = visible [line] ++ visible lines := by
  rw [visible, List.map_cons, ← List.singleton_append, List.filter_append]
  rfl

theorem visible_cons_of_blank (h : trim line = []) (lines : List (List Char)) :
    visible (line :: lines) = visible lines := by
  simp [visible, h]

theorem visible_cons_of_seen (h : trim line ≠ []) (lines : List (List Char)) :
    visible (line :: lines) = trim line :: visible lines := by
  simp [visible, h]

theorem visible_lines_unbroken_append (h : '\n' ∉ line) (rest : List Char) :
    visible (lines (line ++ '\n' :: rest)) = visible (lines line) ++ visible (lines rest) := by
  obtain ⟨found, htrim, hlines⟩ := exists_lines_lineFeed h rest
  have hfound : visible [found] = visible [line] := by simp only [visible, List.map_singleton, htrim]
  rw [hlines, visible_cons, hfound, lines_of_unbroken h]
  split
  · next hempty => simp [hempty, visible]
  · rfl

/-- At a line feed, a text falls into two texts, even if a carriage return stands in front of it. -/
theorem visible_lines_append (first second : List Char) :
    visible (lines (first ++ '\n' :: second)) = visible (lines first) ++ visible (lines second) := by
  -- A line feed within the first text is passed over, until the one between the texts comes first.
  by_cases hfeed : '\n' ∈ first
  · obtain ⟨line, rest, rfl, hline⟩ := List.eq_append_cons_of_mem hfeed
    rw [List.append_assoc, List.cons_append, visible_lines_unbroken_append hline,
      visible_lines_unbroken_append hline, visible_lines_append rest second, List.append_assoc]
  · exact visible_lines_unbroken_append hfeed second
termination_by first.length
decreasing_by
  simp only [*, List.length_append, List.length_cons]
  omega

/-! ### Texts without blanks in front -/

theorem trim_trim (text : List Char) : trim (trim text) = trim text :=
  (trimmed_trim text).trim_eq

theorem trimStart_trim (text : List Char) : trimStart (trim text) = trim text :=
  (trimmed_trim text).trimStart_append (List.forall_mem_nil _)

theorem trim_ne_nil_of_trimStart_eq {text : List Char} (h : trimStart text = text) (hne : text ≠ []) :
    trim text ≠ [] := by
  intro hnone
  obtain ⟨before, after, hbefore, hafter, htext⟩ := exists_eq_append_trim text
  rw [hnone, List.nil_append] at htext
  apply hne
  rw [← h, trimStart, List.dropWhile_eq_nil_iff, htext]
  exact List.forall_mem_append.mpr ⟨hbefore, hafter⟩

end Text

namespace DeckEntry

variable {line text : List Char} {entry : DeckEntry}

/-! ### The card of a line

What is left of a line once a part of it is read has no blanks in front. So a name that is not empty has more in
it than blanks, although the check on a name looks for the empty text only. -/

theorem trimStart_splitSide (h : Text.trimStart text = text) :
    Text.trimStart (splitSide text).2 = (splitSide text).2 := by
  rw [splitSide.eq_def]
  split
  · exact Text.trimStart_trimStart _
  · split
    · exact Text.trimStart_trimStart _
    · exact h
  · exact h

theorem trimStart_splitCount (h : Text.trimStart text = text) :
    Text.trimStart (splitCount text).2 = (splitCount text).2 := by
  unfold splitCount
  extract_lets after
  split
  · split
    · exact Text.trimStart_trimStart after
    · exact h
  · exact h

theorem trimStart_splitEdition (h : Text.trimStart text = text) :
    Text.trimStart (splitEdition text).2 = (splitEdition text).2 := by
  rw [splitEdition.eq_def]
  split
  · dsimp only
    split
    · exact Text.trimStart_trimStart _
    · exact h
  · exact h

theorem read?_trim (line : List Char) : read? (Text.trim line) = read? line := by
  rw [read?, Text.trim_trim, read?]

/-- The card of a line has a written name in which there is something to see. -/
theorem exists_name_of_read? (h : read? line = some entry) :
    ∃ name, Text.trim name ≠ [] ∧ entry.card = .ofName name := by
  simp only [read?] at h
  split at h
  · cases h
  · split at h
    · cases h
    · next hname =>
      obtain rfl := Option.some.inj h
      refine ⟨_, Text.trim_ne_nil_of_trimStart_eq ?_ (by simpa using hname), rfl⟩
      exact trimStart_splitEdition (trimStart_splitCount (trimStart_splitSide (Text.trimStart_trim line)))

end DeckEntry

namespace DeckList

variable {onSide : Bool} {card : Card}

/-! ### What lines add -/

/-- What the lines that are no headers stand for. -/
def entries (lines : List (List Char)) : List DeckEntry :=
  (lines.filter (!isSideHeader ·)).filterMap DeckEntry.read?

/-- Induction along lines, which begin the side, or say nothing, or have cards. -/
theorem lineInduction {motive : List (List Char) → Prop} (nil : motive [])
    (header : ∀ line lines, isSideHeader line = true → motive lines → motive (line :: lines))
    (silent : ∀ line lines, isSideHeader line = false → DeckEntry.read? line = none → motive lines →
      motive (line :: lines))
    (entry : ∀ line lines entry, isSideHeader line = false → DeckEntry.read? line = some entry →
      motive lines → motive (line :: lines))
    (lines : List (List Char)) : motive lines := by
  induction lines with
  | nil => exact nil
  | cons line lines ih =>
    cases hheader : isSideHeader line with
    | true => exact header line lines hheader ih
    | false =>
      cases hentry : DeckEntry.read? line with
      | none => exact silent line lines hheader hentry ih
      | some found => exact entry line lines found hheader hentry ih

section Line

variable {line : List Char} {lines : List (List Char)} {entry : DeckEntry}

theorem collect_header (h : isSideHeader line = true) :
    collect onSide (line :: lines) = collect true lines := by
  rw [collect, h, if_pos rfl]

theorem collect_silent (h : isSideHeader line = false) (hentry : DeckEntry.read? line = none) :
    collect onSide (line :: lines) = collect onSide lines := by
  rw [collect, h, hentry]
  rfl

theorem collect_entry (h : isSideHeader line = false) (hentry : DeckEntry.read? line = some entry) :
    collect onSide (line :: lines) =
      if entry.isMain && !onSide then
        (entry.copies ++ (collect onSide lines).1, (collect onSide lines).2)
      else ((collect onSide lines).1, entry.copies ++ (collect onSide lines).2) := by
  rw [collect, h, hentry]
  rfl

theorem entries_header (h : isSideHeader line = true) : entries (line :: lines) = entries lines := by
  simp [entries, h]

theorem entries_silent (h : isSideHeader line = false) (hentry : DeckEntry.read? line = none) :
    entries (line :: lines) = entries lines := by
  simp [entries, h, hentry]

theorem entries_entry (h : isSideHeader line = false) (hentry : DeckEntry.read? line = some entry) :
    entries (line :: lines) = entry :: entries lines := by
  simp [entries, h, hentry]

end Line

/-- Behind a header, every card is on the side. -/
theorem collect_true (lines : List (List Char)) :
    collect true lines = ([], (entries lines).flatMap DeckEntry.copies) := by
  induction lines using lineInduction with
  | nil => rfl
  | header line lines h ih => rw [collect_header h, entries_header h, ih]
  | silent line lines h hentry ih => rw [collect_silent h hentry, entries_silent h hentry, ih]
  | entry line lines entry h hentry ih =>
    rw [collect_entry h hentry, entries_entry h hentry, ih]
    simp

/-- More lines are read as if they stood alone, or on the side if there is a header in front of them. -/
theorem collect_append (onSide : Bool) (front back : List (List Char)) :
    collect onSide (front ++ back) =
      ((collect onSide front).1 ++ (collect (onSide || front.any isSideHeader) back).1,
        (collect onSide front).2 ++ (collect (onSide || front.any isSideHeader) back).2) := by
  induction front using lineInduction generalizing onSide with
  | nil => simp
  | header line front h ih => simp [collect_header h, ih, h]
  | silent line front h hentry ih => simp [collect_silent h hentry, ih, h]
  | entry line front entry h hentry ih =>
    rw [List.cons_append, collect_entry h hentry, collect_entry h hentry, ih]
    cases (entry.isMain && !onSide) <;> simp [h]

/-- Main deck and side together have the copies that the lines ask for, and no other cards. -/
theorem collect_perm (onSide : Bool) (lines : List (List Char)) :
    ((collect onSide lines).1 ++ (collect onSide lines).2).Perm
      ((entries lines).flatMap DeckEntry.copies) := by
  induction lines using lineInduction generalizing onSide with
  | nil => exact .refl _
  | header line lines h ih =>
    rw [collect_header h, entries_header h]
    exact ih true
  | silent line lines h hentry ih =>
    rw [collect_silent h hentry, entries_silent h hentry]
    exact ih onSide
  | entry line lines entry h hentry ih =>
    rw [collect_entry h hentry, entries_entry h hentry, List.flatMap_cons]
    split
    · rw [List.append_assoc]
      exact (ih onSide).append_left entry.copies
    · exact List.perm_append_comm_assoc _ _ _ |>.trans ((ih onSide).append_left entry.copies)

/-! ### Lines with blanks around them -/

theorem isSideHeader_trim (line : List Char) : isSideHeader (Text.trim line) = isSideHeader line := by
  rw [isSideHeader, Text.trim_trim, isSideHeader]

theorem not_isSideHeader_of_blank {line : List Char} (h : Text.trim line = []) :
    isSideHeader line = false := by
  rw [← isSideHeader_trim, h]
  rfl

theorem read?_of_blank {line : List Char} (h : Text.trim line = []) : DeckEntry.read? line = none := by
  rw [← DeckEntry.read?_trim, h]
  rfl

/-- Blanks around the lines make no difference, and lines without anything else have no cards. -/
theorem collect_visible (onSide : Bool) (lines : List (List Char)) :
    collect onSide (Text.visible lines) = collect onSide lines := by
  induction lines generalizing onSide with
  | nil => rfl
  | cons line lines ih =>
    by_cases h : Text.trim line = []
    · rw [Text.visible_cons_of_blank h, ih,
        collect_silent (not_isSideHeader_of_blank h) (read?_of_blank h)]
    · rw [Text.visible_cons_of_seen h, collect, collect, isSideHeader_trim, DeckEntry.read?_trim, ih, ih]

theorem any_isSideHeader_visible (lines : List (List Char)) :
    (Text.visible lines).any isSideHeader = lines.any isSideHeader := by
  induction lines with
  | nil => rfl
  | cons line lines ih =>
    by_cases h : Text.trim line = []
    · rw [Text.visible_cons_of_blank h, ih, List.any_cons, not_isSideHeader_of_blank h, Bool.false_or]
    · rw [Text.visible_cons_of_seen h, List.any_cons, List.any_cons, isSideHeader_trim, ih]

/-! ### Texts -/

/-- The deck of two texts with a line feed between them. -/
theorem read_append (first second : List Char) :
    let onSide := (Text.lines first).any isSideHeader
    read (first ++ '\n' :: second) =
      ⟨⟨(read first).main.cards ++ (collect onSide (Text.lines second)).1⟩,
        ⟨(read first).side.cards ++ (collect onSide (Text.lines second)).2⟩⟩ := by
  have hlines : collect false (Text.lines (first ++ '\n' :: second)) =
      collect false (Text.visible (Text.lines first) ++ Text.visible (Text.lines second)) := by
    rw [← Text.visible_lines_append, collect_visible]
  rw [read, hlines, collect_append, Bool.false_or, collect_visible, collect_visible, any_isSideHeader_visible]
  rfl

/-- A header in front of a text moves all its cards to the side. -/
theorem read_behind_header (text : List Char) : read ("Sideboard\n".toList ++ text) =
    ⟨.empty, ⟨(entries (Text.lines text)).flatMap DeckEntry.copies⟩⟩ := by
  have hheader : (Text.lines "Sideboard".toList).any isSideHeader = true := by decide +kernel
  have hempty : read "Sideboard".toList = .empty := by decide +kernel
  have happend : "Sideboard\n".toList ++ text = "Sideboard".toList ++ '\n' :: text := rfl
  rw [happend, read_append, hheader, hempty, collect_true]
  rfl

theorem read_perm (text : List Char) : ((read text).main.cards ++ (read text).side.cards).Perm
    ((entries (Text.lines text)).flatMap DeckEntry.copies) :=
  collect_perm false (Text.lines text)

/-- Every card of a deck has a name, which is written as it is. -/
theorem exists_name_of_mem {text : List Char}
    (h : card ∈ (read text).main.cards ∨ card ∈ (read text).side.cards) :
    card ≠ "" ∧ Card.ofName card.toList = card := by
  have hmem := (read_perm text).subset (List.mem_append.mpr h)
  obtain ⟨entry, hentry, hcopy⟩ := List.mem_flatMap.mp hmem
  obtain rfl : card = entry.card := List.eq_of_mem_replicate hcopy
  obtain ⟨line, -, hread⟩ := List.mem_filterMap.mp hentry
  obtain ⟨name, hname, heq⟩ := DeckEntry.exists_name_of_read? hread
  rw [heq]
  refine ⟨?_, Card.ofName_toList_ofName name⟩
  intro hempty
  exact Card.toList_ofName_ne_nil hname (by rw [hempty]; rfl)

/-- Without a header in the first text, the decks of two texts are put together pile by pile. With one, all
cards of the second text go to the side, as they do behind a header alone. Nothing gets lost in any text: the
two piles have as many cards as the lines ask for, the same ones, and each under a name that is written as it
is. -/
theorem read_joined (first second : List Char) :
    ((∀ line ∈ Text.lines first, isSideHeader line = false) →
      (read (first ++ '\n' :: second)).main.cards = (read first).main.cards ++ (read second).main.cards ∧
      (read (first ++ '\n' :: second)).side.cards = (read first).side.cards ++ (read second).side.cards) ∧
    ((∃ line ∈ Text.lines first, isSideHeader line = true) →
      (read (first ++ '\n' :: second)).main = (read first).main ∧
      (read (first ++ '\n' :: second)).side.cards =
        (read first).side.cards ++ (read ("Sideboard\n".toList ++ second)).side.cards ∧
      (read ("Sideboard\n".toList ++ second)).side.cards =
        (entries (Text.lines second)).flatMap DeckEntry.copies) ∧
    ∀ text, (read text).main.size + (read text).side.size =
        ((entries (Text.lines text)).map (·.count)).sum ∧
      ((read text).main.cards ++ (read text).side.cards).Perm
        ((entries (Text.lines text)).flatMap DeckEntry.copies) ∧
      ∀ card, card ∈ (read text).main.cards ∨ card ∈ (read text).side.cards →
        card ≠ "" ∧ Card.ofName card.toList = card := by
  refine ⟨fun hnone => ?_, fun hsome => ?_, fun text => ⟨?_, read_perm text, fun card => exists_name_of_mem⟩⟩
  · have hheader : (Text.lines first).any isSideHeader = false := by simpa using hnone
    rw [read_append, hheader]
    exact ⟨rfl, rfl⟩
  · have hheader : (Text.lines first).any isSideHeader = true := List.any_eq_true.mpr hsome
    rw [read_append, read_behind_header, hheader, collect_true]
    simp
  · have hlength := (read_perm text).length_eq
    rw [List.length_append, List.length_flatMap] at hlength
    simpa [Pile.size, DeckEntry.copies] using hlength

/-- A line feed behind a carriage return, and one behind a header with blanks around it. -/
theorem read_joined_sides :
    ((∀ line ∈ Text.lines "2 Forest\r".toList, isSideHeader line = false) ∧
      ∃ line ∈ Text.lines "SB: Island\n SideBoard: ".toList, isSideHeader line = true) ∧
    (read ("2 Forest\r".toList ++ '\n' :: "1 Swamp\nSB: Forest".toList)).main.cards =
      ["forest", "forest", "swamp"] ∧
    (read ("SB: Island\n SideBoard: ".toList ++ '\n' :: "2x Forest".toList)).side.cards =
      ["island", "forest", "forest"] := by
  have hhypotheses : (∀ line ∈ Text.lines "2 Forest\r".toList, isSideHeader line = false) ∧
      ∃ line ∈ Text.lines "SB: Island\n SideBoard: ".toList, isSideHeader line = true := by decide +kernel
  have hdecks : (read "2 Forest\r".toList).main.cards ++ (read "1 Swamp\nSB: Forest".toList).main.cards =
        ["forest", "forest", "swamp"] ∧
      (read "SB: Island\n SideBoard: ".toList).side.cards ++
        (entries (Text.lines "2x Forest".toList)).flatMap DeckEntry.copies =
          ["island", "forest", "forest"] := by decide +kernel
  obtain ⟨hplain, -, -⟩ := read_joined "2 Forest\r".toList "1 Swamp\nSB: Forest".toList
  obtain ⟨-, hbehind, -⟩ := read_joined "SB: Island\n SideBoard: ".toList "2x Forest".toList
  obtain ⟨-, hside, hcards⟩ := hbehind hhypotheses.2
  rw [(hplain hhypotheses.1).1, hside, hcards]
  exact ⟨hhypotheses, hdecks⟩

end DeckList

end OpeningHand
