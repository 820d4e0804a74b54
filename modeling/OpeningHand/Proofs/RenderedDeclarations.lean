import Mathlib
import OpeningHand.Proofs.RegularReading
import OpeningHand.Proofs.RenderedPatterns

/-!
# Reading a rendered declaration back

The written form of a declaration that was read gives the declaration again exactly if its pattern is
legible. Otherwise it is refused, so reading it never gives another declaration.
-/

namespace OpeningHand

open Pattern Cursor

/-- The end of a line consists of one pattern. -/
theorem readCompound_rereads_single {pattern : Pattern} (h : RereadsPattern pattern) {cursor : Cursor}
    (hrest : cursor.rest = ' ' :: pattern.render) :
    Rereads pattern.Legible pattern [] (readCompound cursor) := by
  have hpattern : cursor.rest.dropWhile isSpace = pattern.render ++ [] := by
    have hrender := pattern.dropWhile_render []
    rw [List.append_nil] at hrender ⊢
    rw [hrest]
    exact hrender
  rw [readCompound, if_neg (not_atCompoundEnd hrest (by decide))]
  apply (h cursor [] hpattern).bind_reads
  intro next shorter hnext
  dsimp only
  have hlast : next.atCompoundEnd = true := by
    rw [atCompoundEnd, current, hnext]
    rfl
  rw [if_pos hlast]
  exact ⟨_, rfl, rfl, hnext⟩

namespace Declaration

variable {declaration : Declaration}

/-- The second opening bracket of a criterion. -/
theorem consume_opening {cursor : Cursor} {name rest : List Char} (hname : Text.Nameable name)
    (isCriterion : Bool)
    (hrest : cursor.rest = (if isCriterion then ['<'] else []) ++ name ++ '>' :: rest) :
    ∃ start, cursor.consume '<' (fun _ => false) = (isCriterion, start) ∧
      start.rest = name ++ '>' :: rest := by
  rw [List.append_assoc] at hrest
  refine consume_optional isCriterion ?_ hrest
  intro hhead
  obtain ⟨c, others, hcons⟩ := List.exists_cons_of_ne_nil hname.ne_nil
  have hbracket := hname.unbracketed c (hcons ▸ List.mem_cons_self)
  rw [hcons] at hhead
  cases hhead
  cases hbracket

theorem closeCriterion_eq_ok {cursor : Cursor} {rest : List Char} (isCriterion : Bool)
    (hrest : cursor.rest = (if isCriterion then ['>'] else []) ++ rest) :
    ∃ closed, cursor.closeCriterion isCriterion = .ok closed ∧ closed.rest = rest := by
  cases isCriterion with
  | true =>
    obtain ⟨closed, hclosed, -, hnext⟩ := expect_reads_next .criterionClosing hrest rfl
    refine ⟨closed.next, ?_, hnext⟩
    rw [closeCriterion, if_pos rfl, hclosed]
    rfl
  | false => exact ⟨cursor, rfl, hrest⟩

theorem render_eq (declaration : Declaration) : declaration.render =
    '<' :: ((if declaration.isCriterion then ['<'] else []) ++ declaration.name.toList ++
      '>' :: ((if declaration.isCriterion then ['>'] else []) ++
        ':' :: ' ' :: declaration.pattern.render)) := by
  rw [render]
  cases declaration.isCriterion with
  | true => simp
  | false => simp

/-- The name of a rendered declaration is read back, and what is left is its pattern. -/
theorem read_render_eq (hname : Text.Nameable declaration.name.toList) :
    ∃ cursor : Cursor, cursor.rest = ' ' :: declaration.pattern.render ∧
      Declaration.read declaration.render = readCompound cursor >>= fun compound =>
        if (compound.next.skip isSpace).atEnd then
          .ok ⟨declaration.name, declaration.isCriterion, compound.value⟩
        else (compound.next.skip isSpace).refuse .trailing := by
  have hrender : (Cursor.ofText declaration.render).rest = _ := declaration.render_eq
  obtain ⟨opened, hopened, -, hafter⟩ := expect_reads_next .nameOpening hrender rfl
  obtain ⟨start, hconsume, hstart⟩ := consume_opening hname _ hafter
  have hvalue := value_readName hstart hname.unbracketed rfl
  have hword := rest_readName hstart hname.unbracketed rfl
  obtain ⟨named, hnamed, -, hsecond⟩ := expect_reads_next .nameClosing hword rfl
  obtain ⟨closed, hclosed, hcolon⟩ := closeCriterion_eq_ok declaration.isCriterion hsecond
  obtain ⟨colon, hread, -, hpattern⟩ := expect_reads_next .colon hcolon rfl
  have htrim : String.ofList (Text.trim start.readName.value) = declaration.name := by
    rw [hvalue, hname.trimmed.trim_eq, String.ofList_toList]
  have hempty : declaration.name.isEmpty = false := by
    apply Bool.eq_false_iff.mpr
    intro h
    exact hname.ne_nil (by simpa using h)
  refine ⟨colon.next, hpattern, ?_⟩
  rw [Declaration.read, hopened]
  dsimp only [bind, Except.bind]
  rw [hconsume]
  dsimp only
  rw [htrim, hempty, if_neg Bool.false_ne_true, hnamed]
  dsimp only
  rw [hclosed]
  dsimp only
  rw [hread]
  rfl

theorem read_render (hname : Text.Nameable declaration.name.toList)
    (hregular : declaration.pattern.Regular) :
    (declaration.pattern.Legible → Declaration.read declaration.render = .ok declaration) ∧
      (¬declaration.pattern.Legible → Refuses (Declaration.read declaration.render)) := by
  obtain ⟨cursor, hrest, hread⟩ := read_render_eq hname
  have hcompound := readCompound_rereads_single (rereads_of_regular hregular).2 hrest
  rw [hread]
  constructor
  · intro hlegible
    obtain ⟨compound, hok, hvalue, hnext⟩ := hcompound.reads hlegible
    have hend : (compound.next.skip isSpace).atEnd = true := by
      rw [atEnd, rest_skip, hnext]
      rfl
    rw [hok]
    dsimp only [bind, Except.bind]
    rw [if_pos hend, hvalue]
  · intro hnot
    exact (hcompound.refuses hnot).bind

/-- A declaration that was read is read again from its written form exactly if nothing in its pattern
always holds and no repetition is directly of a repetition; in any other case its written form is
malformed. -/
theorem read_render_iff {line : List Char} (h : Declaration.read line = .ok declaration) :
    (Declaration.read declaration.render = .ok declaration ↔
      always ∉ declaration.pattern.nodes ∧
        ∀ count inner child, times count (times inner child) ∉ declaration.pattern.nodes) ∧
    (Declaration.read declaration.render ≠ .ok declaration →
      ∃ diagnostic, Declaration.read declaration.render = .error (.malformed diagnostic)) := by
  obtain ⟨hname, hregular⟩ := read_regular h
  obtain ⟨hread, hrefuse⟩ := read_render hname hregular
  have hrefused : Declaration.read declaration.render ≠ .ok declaration →
      Refuses (Declaration.read declaration.render) := fun hne =>
    hrefuse fun hlegible => hne (hread hlegible)
  rw [← legible_iff]
  refine ⟨⟨?_, hread⟩, hrefused⟩
  intro hok
  by_contra hnot
  obtain ⟨diagnostic, hmalformed⟩ := hrefuse hnot
  rw [hok] at hmalformed
  cases hmalformed

theorem read_render_iff_nested :
    Declaration.read "<a>: 2(3[x])".toList = .ok ⟨"a", false, times 2 (times 3 (card "x"))⟩ ∧
      ∃ diagnostic, Declaration.read (render ⟨"a", false, times 2 (times 3 (card "x"))⟩) =
        .error (.malformed diagnostic) := by
  have hread : Declaration.read "<a>: 2(3[x])".toList =
      .ok ⟨"a", false, times 2 (times 3 (card "x"))⟩ := by cbv
  obtain ⟨hiff, hmalformed⟩ := read_render_iff hread
  refine ⟨hread, hmalformed ?_⟩
  intro hok
  exact (hiff.mp hok).2 2 3 (card "x") List.mem_cons_self

end Declaration

end OpeningHand
