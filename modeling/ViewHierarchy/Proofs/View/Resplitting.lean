import ViewHierarchy.Proofs.Source.Locality
import ViewHierarchy.Proofs.View.Conditional
import ViewHierarchy.Proofs.View.Covering

/-! An expression of a block is one expression when it is read alone. It was cut off before white
space or a semicolon, and what stood behind the cut neither shortened it nor kept it from being a
conditional. -/
namespace ViewHierarchy
open Text Source

variable {body s t rest : List Char} {c : Char}

/-- What stands behind an expression, without the white space at its end. -/
def StandsBehind (t : List Char) : Prop := ∀ d ∈ t.head?, isBlank d = true ∨ d = ';'

theorem StandsBehind.stops (h : StandsBehind t) : Stops isWord t := by
  intro d hd
  rcases h d hd with hblank | rfl
  · exact isWord_of_isBlank hblank
  · decide

theorem StandsBehind.noComment (h : StandsBehind t) : ∀ d ∈ t.head?, d ≠ '/' ∧ d ≠ '*' := by
  intro d hd
  constructor
  · rintro rfl
    exact absurd (h '/' hd) (by decide)
  · rintro rfl
    exact absurd (h '*' hd) (by decide)

theorem standsBehind_blank {w : List Char} (hw : ∀ d ∈ w, isBlank d = true) (ht : StandsBehind t) :
    StandsBehind (w ++ t) := by
  cases w with
  | nil => exact ht
  | cons d w =>
    rintro e he
    cases he
    exact .inl (hw _ List.mem_cons_self)

/-- A text that starts with no conditional starts with none if its end is cut off. -/
theorem headConditional?_cut (h : headConditional? (s ++ t) = none) (ht : StandsBehind t) :
    headConditional? s = none := by
  rw [headConditional?] at h ⊢
  cases hif : startsWithIf s with
  | false => exact if_neg Bool.false_ne_true
  | true =>
    have hif' : startsWithIf (s ++ t) = true := by
      rw [← hif]
      exact startsWithWord_append (isWord_of_isIdentifier (by decide)) ht.stops s
    rw [if_pos hif', Conditional.read?_eq_none_iff] at h
    rw [if_pos rfl, Conditional.read?_eq_none_iff]
    cases hc : clause? (s.drop 2) with
    | none => rfl
    | some found =>
      obtain ⟨u, rfl, -⟩ := startsWithWord_eq_true.1 hif
      cases h.symm.trans (clause?_append (t := t) hc ht.noComment)

/-- An expression goes on to its end when the rest of the text and the white space in front of it
are cut off. -/
theorem expressionLength_trimRight {p : List Char} (hseam : Seam t (c :: p))
    (h : expressionLength 0 (mark (c :: p ++ t)) = (c :: p).length) :
    expressionLength 0 (mark (c :: trimRight p)) = (c :: trimRight p).length := by
  obtain ⟨w, hp, hw⟩ := exists_trimRight p
  generalize trimRight p = q at *
  subst hp
  obtain ⟨ms, hms, hfst, hblank⟩ := exists_mark_blank hw (c :: q)
  rw [hseam.mark_append, ← List.cons_append, hms] at h
  have hplain : ∀ m ∈ ms, m.1 ≠ '.' := by
    intro m hm hdot
    exact absurd (hblank m hm) (by rw [hdot]; decide)
  rw [← hfst, List.length_append, List.length_map, ← length_mark (c :: q)] at h
  rw [← length_mark (c :: q)]
  exact expressionLength_cut h hplain

/-- What follows an expression starts with a semicolon or a line break. -/
theorem standsBehind_headExpression (hsep : ∀ m ∈ (mark (c :: s)).head?, m.isSeparator = false) :
    StandsBehind (headExpression (c :: s)).2 := by
  obtain ⟨p, hs, -, -, hlen⟩ := headExpression_split hsep
  intro d hd
  have hget : (c :: s)[expressionLength 0 (mark (c :: s))]? = some d := by
    rw [hlen, hs, List.getElem?_append_right (Nat.le_refl _), Nat.sub_self,
      ← List.head?_eq_getElem?]
    exact hd
  rw [← map_fst_mark (c :: s), List.getElem?_map, map_fst_mark] at hget
  obtain ⟨m, hm, rfl⟩ := Option.map_eq_some_iff.1 hget
  rcases expressionLength_end hm with rfl | rfl
  · exact .inr rfl
  · exact .inl (by decide)

theorem exists_headExpression {text : List Char} (h : .expression text ∈ siblings body) :
    ∃ c s, (∀ m ∈ (mark (c :: s)).head?, m.isSeparator = false) ∧
      headConditional? (c :: s) = none ∧ text = (headExpression (c :: s)).1 := by
  fun_induction siblings body with
  | case1 => cases h
  | case2 body c s hd hle conditional rest hc hlt ih =>
    cases h with
    | tail _ h => exact ih h
  | case3 body c s hd hle hc hlt ih =>
    cases h with
    | head => exact ⟨c, s, hd ▸ head_mark_dropSeparators body, hc, rfl⟩
    | tail _ h => exact ih h

theorem siblings_alone {text : List Char} (h : .expression text ∈ siblings body) :
    siblings text = [.expression text] := by
  obtain ⟨c, s, hsep, hc, rfl⟩ := exists_headExpression h
  have hbehind := standsBehind_headExpression hsep
  have hblank := isBlank_of_head hsep
  obtain ⟨p, hs, htext, hseam, hlen⟩ := headExpression_split hsep
  generalize (headExpression (c :: s)).2 = rest at *
  rw [htext]
  rw [hs] at hsep hc hlen
  have hcut := expressionLength_trimRight hseam hlen
  obtain ⟨w, hp, hw⟩ := exists_trimRight p
  have hbehind' := standsBehind_blank hw hbehind
  have hsplit : c :: p ++ rest = c :: trimRight p ++ (w ++ rest) := by
    rw [List.cons_append, List.cons_append, ← List.append_assoc, ← hp]
  rw [hsplit] at hsep hc
  refine siblings_whole ?_ (headConditional?_cut hc hbehind') hcut ?_
  · intro m hm
    obtain ⟨ms, hms⟩ := mark_isPrefix hbehind'.noComment (c :: trimRight p)
    apply hsep
    rw [← hms, List.head?_append, Option.mem_def.1 hm]
    rfl
  · rw [trim_cons hblank, trimRight_idem]

/-- Nothing of a block is lost. Its siblings are read from parts of it that cover all but its
separators, it has no views just if it is made of separators, and each of its expressions is one
expression when it is read alone. -/
theorem siblings_lossless (st : Settings) (body : List Char) :
    (∃ ps, ps.map Placed.sibling = siblings body ∧ Covers body ps) ∧
      (parseBlock st body = [] ↔ ∀ m ∈ mark body, m.isSeparator = true) ∧
      ∀ text, .expression text ∈ siblings body → siblings text = [.expression text] :=
  ⟨exists_covers body, parseBlock_eq_nil_iff st, fun _ h => siblings_alone h⟩

/-- An expression and a conditional with separators between them. -/
def mixedText : List Char := "A; if c {B}".toList

theorem siblings_mixedText :
    siblings mixedText = [.expression ['A'], .conditional (.plain ['c'] ['B'])] := by
  have hc : headConditional? "if c {B}".toList = some (.plain ['c'] ['B'], []) :=
    read?_plain (by rfl) (by rfl)
  have hrest : siblings "; if c {B}".toList = [.conditional (.plain ['c'] ['B'])] :=
    (siblings_conditional (by rfl) hc).trans (congrArg _ (siblings_nil rfl))
  exact (siblings_expression (by rfl) (by rfl)).trans (congrArg _ hrest)

theorem siblings_lossless_mixedText :
    (∃ ps, ps.map Placed.sibling = [.expression ['A'], .conditional (.plain ['c'] ['B'])] ∧
      Covers mixedText ps) ∧ siblings ['A'] = [.expression ['A']] := by
  rw [← siblings_mixedText]
  obtain ⟨hcovers, -, halone⟩ := siblings_lossless .default mixedText
  refine ⟨hcovers, halone ['A'] ?_⟩
  rw [siblings_mixedText]
  exact List.mem_cons_self

end ViewHierarchy
