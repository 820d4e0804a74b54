import Mathlib
import OpeningHand.Proofs.RuleTexts
import OpeningHand.Proofs.SimulationCounts
import OpeningHand.Proofs.TableColumns

/-!
# The table of some results

Results have a count for every criterion and every deck, and names without line feeds, if they come from a
simulation. Their table has a line for each criterion, and all its lines are equally long. In the column of a
deck, its heading and its counts end at the same place. The table is written out if it is at most as wide as
a line may be; otherwise there is a fault in the place of the table.
-/

namespace OpeningHand

/-! ### Texts without line feeds -/

def Unbroken (text : String) : Prop :=
  '\n' ∉ text.toList

instance (text : String) : Decidable (Unbroken text) :=
  inferInstanceAs (Decidable ('\n' ∉ text.toList))

theorem Unbroken.append {first second : String} (hfirst : Unbroken first) (hsecond : Unbroken second) :
    Unbroken (first ++ second) := by
  rw [Unbroken, String.toList_append, List.mem_append, not_or]
  exact ⟨hfirst, hsecond⟩

theorem toList_toString (n : ℕ) : (toString n).toList = Text.numeral n :=
  Nat.toList_repr

theorem unbroken_toString (n : ℕ) : Unbroken (toString n) := by
  intro h
  rw [toList_toString] at h
  cases Text.isDigit_of_mem_numeral h

theorem unbroken_percentage (count iterations : ℕ) : Unbroken (percentage count iterations) := by
  rw [percentage]
  split
  · decide
  · exact (((unbroken_toString _).append (by decide)).append (unbroken_toString _)).append (by decide)

namespace Results

variable {results : Results}

theorem unbroken_cell (results : Results) (count : ℕ) : Unbroken (results.cell count) :=
  (((((unbroken_percentage _ _).append (by decide)).append (unbroken_toString _)).append
    (by decide)).append (unbroken_toString _)).append (by decide)

theorem unbroken_deckHeading (deck size : ℕ) : Unbroken (deckHeading deck size) := by
  have hdeck : Unbroken (if deck = 0 then "main" else "alt." ++ toString deck) := by
    split
    · decide
    · exact .append (by decide) (unbroken_toString _)
  exact ((hdeck.append (by decide)).append (unbroken_toString _)).append (by decide)

theorem getLast?_cell (results : Results) (count : ℕ) :
    (results.cell count).toList.getLast? = some ')' := by
  rw [cell, String.toList_append]
  exact List.getLast?_concat

theorem getLast?_deckHeading (deck size : ℕ) : (deckHeading deck size).toList.getLast? = some ')' := by
  rw [deckHeading, String.toList_append]
  exact List.getLast?_append_of_ne_nil _ (by decide)

/-! ### Rows -/

/-- There is a deck, a count for every criterion and every deck, and for every deck a count of the hands
without a criterion; and every name fits on a line. -/
structure Shaped (results : Results) : Prop where
  decks : 0 < results.deckCount
  rows : results.matchCounts.length = results.criteria.length
  columns : ∀ row ∈ results.matchCounts, row.length = results.deckCount
  misses : results.noMatchCounts.length = results.deckCount
  names : ∀ name ∈ results.criteria, Unbroken name

def countRow (results : Results) (number name : String) (counts : List ℕ) : List String :=
  number :: name :: counts.map results.cell

def fullTable (results : Results) : Table where
  heading := "#" :: "rules" :: results.deckSizes.mapIdx deckHeading
  rows := (results.criteria.zip results.matchCounts).mapIdx
      (fun criterion (name, counts) => results.countRow (toString (criterion + 1)) name counts) ++
    [results.countRow "---" "no match" results.noMatchCounts]

theorem mapM_entryAt_range {α : Type} (row : List α) :
    (List.range row.length).mapM (entryAt row) = .ok row := by
  rw [mapM_eq_ok_iff, List.forall₂_iff_get]
  refine ⟨List.length_range, fun index _ hindex => ?_⟩
  rw [List.get_eq_getElem, List.getElem_range]
  exact entryAt_of_getElem? (List.getElem?_eq_getElem hindex)

theorem criterionRow_eq {criterion : ℕ} {counts : List ℕ}
    (hrow : results.matchCounts[criterion]? = some counts) (hlength : counts.length = results.deckCount)
    (name : String) : results.criterionRow name criterion =
      .ok (results.countRow (toString (criterion + 1)) name counts) := by
  have hcount : results.count criterion = entryAt counts := by
    funext deck
    rw [count, entryAt_of_getElem? hrow]
    rfl
  rw [criterionRow, hcount, ← hlength, mapM_entryAt_range]
  rfl

theorem noMatchRow_eq (hlength : results.noMatchCounts.length = results.deckCount) :
    results.noMatchRow = .ok (results.countRow "---" "no match" results.noMatchCounts) := by
  have hcount : results.noMatch = entryAt results.noMatchCounts := rfl
  rw [noMatchRow, hcount, ← hlength, mapM_entryAt_range]
  rfl

/-- No entry is asked for that is not there. -/
theorem Shaped.table_eq (h : results.Shaped) : results.table = .ok results.fullTable := by
  have hrows : results.criteria.zipIdx.mapM (fun entry => results.criterionRow entry.1 entry.2) =
      .ok ((results.criteria.zip results.matchCounts).mapIdx
        fun criterion entry => results.countRow (toString (criterion + 1)) entry.1 entry.2) := by
    rw [mapM_eq_ok_iff, List.forall₂_iff_get]
    constructor
    · rw [List.length_zipIdx, List.length_mapIdx, List.length_zip, h.rows, Nat.min_self]
    · intro criterion _ hcriterion
      rw [List.length_mapIdx, List.length_zip, h.rows, Nat.min_self] at hcriterion
      have hcounts : criterion < results.matchCounts.length := h.rows.symm ▸ hcriterion
      have hrow := criterionRow_eq (List.getElem?_eq_getElem hcounts)
        (h.columns _ (List.getElem_mem hcounts)) results.criteria[criterion]
      simpa using hrow
  change (results.criteria.zipIdx.mapM (fun entry => results.criterionRow entry.1 entry.2) >>= _) = _
  rw [hrows, noMatchRow_eq h.misses]
  rfl

/-! ### What all rows have in common -/

/-- The row has as many columns as there are decks, and two for labels; its numbers end visibly, and it fits
on a line. -/
structure FullRow (results : Results) (row : List String) : Prop where
  length : row.length = Table.labelColumns + results.deckCount
  numbered : Table.Numbered row
  unbroken : ∀ text ∈ row, Unbroken text

/-- Two labels and a text for each deck are a row if the texts are closed by brackets. -/
theorem fullRow_of_closed {number name : String} {texts : List String} (hnumber : Unbroken number)
    (hname : Unbroken name) (hlength : texts.length = results.deckCount) (hdecks : 0 < results.deckCount)
    (hclosed : ∀ text ∈ texts, text.toList.getLast? = some ')') (htexts : ∀ text ∈ texts, Unbroken text) :
    results.FullRow (number :: name :: texts) := by
  have hrow : (number :: name :: texts).length = Table.labelColumns + results.deckCount := by
    rw [List.length_cons, List.length_cons, hlength]
    exact Nat.add_comm _ 2
  refine ⟨hrow, ⟨hrow ▸ Nat.lt_add_of_pos_right hdecks, ?_⟩, ?_⟩
  · intro text htext
    exact ⟨')', hclosed text htext, by decide⟩
  · exact List.forall_mem_cons.mpr ⟨hnumber, List.forall_mem_cons.mpr ⟨hname, htexts⟩⟩

theorem fullRow_countRow {number name : String} {counts : List ℕ} (hnumber : Unbroken number)
    (hname : Unbroken name) (hlength : counts.length = results.deckCount) (hdecks : 0 < results.deckCount) :
    results.FullRow (results.countRow number name counts) :=
  fullRow_of_closed hnumber hname (by rw [List.length_map, hlength]) hdecks
    (List.forall_mem_map.mpr fun count _ => results.getLast?_cell count)
    (List.forall_mem_map.mpr fun count _ => results.unbroken_cell count)

theorem fullRow_heading (hdecks : 0 < results.deckCount) : results.FullRow results.fullTable.heading := by
  apply fullRow_of_closed (by decide) (by decide) List.length_mapIdx hdecks
  · intro text htext
    obtain ⟨deck, hdeck, rfl⟩ := List.mem_mapIdx.mp htext
    exact getLast?_deckHeading deck _
  · intro text htext
    obtain ⟨deck, hdeck, rfl⟩ := List.mem_mapIdx.mp htext
    exact unbroken_deckHeading deck _

theorem Shaped.fullRow (h : results.Shaped) :
    ∀ row ∈ results.fullTable.heading :: results.fullTable.rows, results.FullRow row := by
  refine List.forall_mem_cons.mpr ⟨fullRow_heading h.decks, List.forall_mem_append.mpr ⟨?_, ?_⟩⟩
  · intro row hrow
    obtain ⟨criterion, hcriterion, rfl⟩ := List.mem_mapIdx.mp hrow
    obtain ⟨hname, hcounts⟩ := List.of_mem_zip (List.getElem_mem hcriterion)
    exact fullRow_countRow (unbroken_toString _) (h.names _ hname) (h.columns _ hcounts) h.decks
  · rw [List.forall_mem_singleton]
    exact fullRow_countRow (by decide) (by decide) h.misses h.decks

theorem Shaped.length_of_mem_rows (h : results.Shaped) :
    ∀ row ∈ results.fullTable.rows, row.length = results.fullTable.heading.length := by
  intro row hrow
  rw [(h.fullRow row (List.mem_cons_of_mem _ hrow)).length, (fullRow_heading h.decks).length]

/-- The widths of the table fit all its rows. -/
theorem Shaped.fits (h : results.Shaped) {row : List String}
    (hrow : row ∈ results.fullTable.heading :: results.fullTable.rows) :
    Table.Fits results.fullTable.widths row :=
  Table.fits_widths h.length_of_mem_rows hrow

/-! ### What the lines say -/

/-- The line has the two labels, and in the column of each deck its count with its share. -/
structure HasCounts (results : Results) (widths : List ℕ) (line : List Char) (number name : String)
    (count : ℕ → Except Fault ℕ) : Prop where
  number : Table.Shows widths line 0 number
  name : Table.Shows widths line 1 name
  counts : ∀ deck < results.deckCount, ∃ n, count deck = .ok n ∧
    Table.Shows widths line (Table.labelColumns + deck) (results.cell n)

/-- The lines are equally long, and in their columns they have the headings of the decks and all counts. -/
structure Tabulated (results : Results) (widths : List ℕ) (lines : List (List Char)) : Prop where
  amount : lines.length = results.criteria.length + 3
  unbroken : ∀ line ∈ lines, '\n' ∉ line
  even : ∀ line ∈ lines, line.length = Table.ruleWidth widths
  heading : ∃ line, lines[0]? = some line ∧ ∀ deck size, results.deckSizes[deck]? = some size →
    Table.Shows widths line (Table.labelColumns + deck) (deckHeading deck size)
  rule : lines[1]? = some (List.replicate (Table.ruleWidth widths) '-')
  hits : ∀ criterion name, results.criteria[criterion]? = some name →
    ∃ line, lines[criterion + 2]? = some line ∧
      results.HasCounts widths line (toString (criterion + 1)) name (results.count criterion)
  misses : ∃ line, lines[results.criteria.length + 2]? = some line ∧
    results.HasCounts widths line "---" "no match" results.noMatch

theorem hasCounts_line {widths : List ℕ} {number name : String} {counts : List ℕ}
    {count : ℕ → Except Fault ℕ} (hfits : Table.Fits widths (results.countRow number name counts))
    (hlength : counts.length = results.deckCount)
    (hcount : ∀ deck n, counts[deck]? = some n → count deck = .ok n) :
    results.HasCounts widths (Table.line widths (results.countRow number name counts)) number name count := by
  refine ⟨Table.shows_line hfits rfl, Table.shows_line hfits rfl, fun deck hdeck => ?_⟩
  have hn : counts[deck]? = some counts[deck] := List.getElem?_eq_getElem (hlength ▸ hdeck)
  refine ⟨counts[deck], hcount deck _ hn, Table.shows_line hfits ?_⟩
  rw [countRow, Nat.add_comm]
  exact (List.getElem?_map ..).trans (congrArg _ hn)

theorem getElem?_rows {criterion : ℕ} {name : String} {counts : List ℕ}
    (hname : results.criteria[criterion]? = some name) (hcounts : results.matchCounts[criterion]? = some counts) :
    results.fullTable.rows[criterion]? =
      some (results.countRow (toString (criterion + 1)) name counts) := by
  have hzip : (results.criteria.zip results.matchCounts)[criterion]? = some (name, counts) :=
    List.getElem?_zip_eq_some.mpr ⟨hname, hcounts⟩
  obtain ⟨hcriterion, -⟩ := List.getElem_of_getElem? hzip
  rw [fullTable, List.getElem?_append_left (by rwa [List.length_mapIdx]), List.getElem?_mapIdx, hzip]
  rfl

theorem Shaped.getElem?_rows_last (h : results.Shaped) :
    results.fullTable.rows[results.criteria.length]? =
      some (results.countRow "---" "no match" results.noMatchCounts) := by
  have hlength : (results.criteria.zip results.matchCounts).length = results.criteria.length := by
    rw [List.length_zip, h.rows, Nat.min_self]
  rw [fullTable, List.getElem?_append_right (by rw [List.length_mapIdx, hlength]), List.length_mapIdx, hlength,
    Nat.sub_self]
  rfl

theorem Shaped.length_rows (h : results.Shaped) :
    results.fullTable.rows.length = results.criteria.length + 1 := by
  rw [fullTable, List.length_append, List.length_mapIdx, List.length_zip, h.rows, Nat.min_self]
  rfl

theorem Shaped.tabulated (h : results.Shaped) :
    results.Tabulated results.fullTable.widths results.fullTable.lines where
  amount := by
    rw [Table.lines, List.length_cons, List.length_cons, List.length_map, h.length_rows]
  unbroken _ := Table.unbroken_of_mem_lines fun row hrow => (h.fullRow row hrow).unbroken
  even _ := Table.length_of_mem_lines h.length_of_mem_rows
  heading := by
    refine ⟨_, rfl, fun deck size hsize => Table.shows_line (h.fits List.mem_cons_self) ?_⟩
    rw [fullTable, Nat.add_comm]
    exact List.getElem?_mapIdx.trans (congrArg _ hsize)
  rule := rfl
  hits criterion name hname := by
    obtain ⟨hcriterion, -⟩ := List.getElem_of_getElem? hname
    obtain ⟨counts, hcounts⟩ : ∃ counts, results.matchCounts[criterion]? = some counts :=
      ⟨_, List.getElem?_eq_getElem (h.rows.symm ▸ hcriterion)⟩
    have hrow := getElem?_rows hname hcounts
    refine ⟨_, Table.getElem?_lines hrow, hasCounts_line
      (h.fits (List.mem_cons_of_mem _ (List.mem_of_getElem? hrow))) (h.columns _ (List.mem_of_getElem? hcounts)) ?_⟩
    intro deck n hn
    rw [count, entryAt_of_getElem? hcounts]
    exact entryAt_of_getElem? hn
  misses := by
    have hrow := h.getElem?_rows_last
    refine ⟨_, Table.getElem?_lines hrow, hasCounts_line
      (h.fits (List.mem_cons_of_mem _ (List.mem_of_getElem? hrow))) h.misses ?_⟩
    intro deck n hn
    exact entryAt_of_getElem? hn

theorem Shaped.render_eq (h : results.Shaped) : results.fullTable.render =
    if Table.ruleWidth results.fullTable.widths ≤ Table.maxWidth
      then .ok (results.fullTable.lines.flatMap (· ++ ['\n'])) else .error .widthOverflow :=
  Table.render_eq h.length_of_mem_rows fun row hrow => (h.fullRow row hrow).numbered

end Results

/-! ### Results of a simulation -/

theorem Grammar.Line.mem_line {line : List Char} {declaration : Declaration} {c : Char}
    (h : Line line declaration) (hc : c ∈ declaration.name.toList) : c ∈ line := by
  cases h with
  | mk hheading =>
    have hname := (Text.trim_sublist _).subset (String.toList_ofList ▸ hc)
    cases hheading <;> simp [hname]

/-- The names that a text declares stand on its lines. -/
theorem RuleBook.unbroken_of_mem_declarations {text : List Char} {declaration : Declaration}
    (h : declaration ∈ declarations text) : Unbroken declaration.name := by
  obtain ⟨line, hline, hdeclared⟩ := List.mem_filterMap.mp h
  obtain ⟨index, hindex⟩ := List.mem_iff_getElem?.mp hline
  obtain ⟨_, found, _, _, hplace, -, htrim⟩ := Text.exists_lineAt hindex
  have hjustified := Declaration.read_justified (Text.trim line)
  rw [(declared?_eq_some_iff.mp hdeclared).2] at hjustified
  cases hjustified with
  | ok hderives =>
    intro hfeed
    apply hplace.unbroken
    exact (Text.trim_sublist found).subset (htrim ▸ hderives.mem_line hfeed)

theorem RuleBook.criteria_of_read {text : List Char} {book : RuleBook} (h : read text = .ok book) :
    book.criteria = (declarations text).filter (·.isCriterion) := by
  rw [read_eq] at h
  cases hbreakdown : breakdown text with
  | some fault =>
    rw [hbreakdown] at h
    cases h
  | none =>
    rw [hbreakdown] at h
    obtain rfl := Except.ok.inj h
    rw [addAll_eq]
    rfl

/-- What comes out of a simulation with a rule text and a deck can be shown in a table. -/
theorem RuleBook.shaped_of_simulate {γ : Type} [Picker γ] {text : List Char} {book : RuleBook} {settings : Settings}
    {otherSeed : UInt64} {decks : List DeckList} {results : Results} (hread : read text = .ok book)
    (hdecks : decks ≠ []) (h : book.simulate settings otherSeed decks γ = .ok results) : results.Shaped := by
  obtain ⟨-, rfl⟩ := simulate_eq_ok_iff_getD.mp h
  have hexact := exact_exactResults γ book settings (settings.seed.getD otherSeed) decks
  have hcount : (book.exactResults γ settings (settings.seed.getD otherSeed) decks).deckCount = decks.length :=
    List.length_map _
  refine ⟨hcount ▸ List.length_pos_iff.mpr hdecks, hexact.rows.trans (List.length_map _).symm, ?_,
    hexact.misses.trans hcount.symm, ?_⟩
  · intro row hrow
    rw [hexact.columns row hrow, hcount]
  · intro name hname
    obtain ⟨criterion, hcriterion, rfl⟩ := List.mem_map.mp hname
    rw [criteria_of_read hread] at hcriterion
    exact unbroken_of_mem_declarations (List.mem_filter.mp hcriterion).1

namespace Results

/-- Results with counts for all criteria and decks have a table. Its lines are one for each criterion and
three others, all equally long, and in each of them the count of a deck ends where the heading of the deck
ends. The table is written out as these lines, or there is a fault in its place if they are longer than a
line may be. The results of every simulation with a rule text and at least one deck are of this kind. -/
theorem table_tabulates (results : Results) :
    (results.Shaped → ∃ table, results.table = .ok table ∧
      results.Tabulated table.widths table.lines ∧
      table.render = if Table.ruleWidth table.widths ≤ Table.maxWidth
        then .ok (table.lines.flatMap (· ++ ['\n'])) else .error .widthOverflow) ∧
    ∀ text book settings otherSeed decks (γ : Type) [Picker γ], RuleBook.read text = .ok book →
      decks ≠ [] → book.simulate settings otherSeed decks γ = .ok results → results.Shaped :=
  ⟨fun h => ⟨results.fullTable, h.table_eq, h.tabulated, h.render_eq⟩,
    fun _ _ _ _ _ _ _ hread hdecks hresults => RuleBook.shaped_of_simulate hread hdecks hresults⟩

def pairText : List Char :=
  "<<both>>: [x] & [y]\n<<one>>: [x]".toList

def pairTable : Table where
  heading := ["#", "rules", "main (3 cards)", "alt.1 (3 cards)"]
  rows := [
    ["1", "both", "25.0% (1/4)", "0.0% (0/4)"],
    ["2", "one", "0.0% (0/4)", "100.0% (4/4)"],
    ["---", "no match", "75.0% (3/4)", "0.0% (0/4)"]]

theorem table_tabulates_pair : RuleBook.pairResults.Shaped ∧
    RuleBook.pairResults.Tabulated pairTable.widths pairTable.lines ∧
      pairTable.render = .ok (pairTable.lines.flatMap (· ++ ['\n'])) ∧
      pairTable.lines.map String.ofList = [
        "#    rules     main (3 cards)  alt.1 (3 cards)",
        "----------------------------------------------",
        "1    both         25.0% (1/4)       0.0% (0/4)",
        "2    one           0.0% (0/4)     100.0% (4/4)",
        "---  no match     75.0% (3/4)       0.0% (0/4)"] := by
  have hread : RuleBook.read pairText = .ok RuleBook.pairBook := by cbv
  have hresults : RuleBook.pairBook.simulate RuleBook.pairSettings 0 RuleBook.pairDecks =
      .ok RuleBook.pairResults := by decide +kernel
  have htable : RuleBook.pairResults.table = .ok pairTable := by decide +kernel
  have hshaped : RuleBook.pairResults.Shaped :=
    (table_tabulates _).2 pairText _ _ _ _ Generator hread (List.cons_ne_nil _ _) hresults
  obtain ⟨table, hfound, htabulated, hrender⟩ := (table_tabulates RuleBook.pairResults).1 hshaped
  obtain rfl : pairTable = table := Except.ok.inj (htable.symm.trans hfound)
  rw [if_pos (by decide)] at hrender
  exact ⟨hshaped, htabulated, hrender, by decide +kernel⟩

/-- One hand, which satisfies a criterion with a name of 65515 letters. -/
def wideResults : Results :=
  ⟨1, 7, 1, [String.ofList (List.replicate 65515 'a')], [1], [[1]], [0]⟩

theorem shaped_wideResults : wideResults.Shaped := by
  refine ⟨by decide, by decide, by decide, by decide, ?_⟩
  intro name hname
  obtain rfl := List.mem_singleton.mp hname
  rw [Unbroken, String.toList_ofList]
  intro hfeed
  cases List.eq_of_mem_replicate hfeed

/-- With this name a line would have 65536 characters, one more than there may be. -/
theorem wideResults_overflows : wideResults.Shaped ∧
    ∃ table, wideResults.table = .ok table ∧ table.render = .error .widthOverflow := by
  refine ⟨shaped_wideResults, wideResults.fullTable, shaped_wideResults.table_eq, ?_⟩
  have hhit : wideResults.cell 1 = "100.0% (1/1)" := by decide +kernel
  have hmiss : wideResults.cell 0 = "0.0% (0/1)" := by decide +kernel
  have hheading : deckHeading 0 1 = "main (1 cards)" := by decide +kernel
  have hnumber : toString 1 = "1" := by decide +kernel
  have hwidths : wideResults.fullTable.widths = [3, 65515, 14] := by
    change [wideResults.countRow (toString 1) (String.ofList (List.replicate 65515 'a')) [1],
      wideResults.countRow "---" "no match" [0]].foldl Table.widen
        (["#", "rules", deckHeading 0 1].map String.length) = _
    have hname : (String.ofList (List.replicate 65515 'a')).length = 65515 := by
      rw [String.length_ofList, List.length_replicate]
    -- Only the length of the name matters, so its letters need not be written out.
    generalize String.ofList (List.replicate 65515 'a') = name at hname ⊢
    simp only [countRow, hheading, hnumber, List.map_cons, List.map_nil, hhit, hmiss, List.foldl_cons,
      List.foldl_nil, Table.widen, hname]
    decide
  rw [shaped_wideResults.render_eq, hwidths]
  rfl

end Results

end OpeningHand
