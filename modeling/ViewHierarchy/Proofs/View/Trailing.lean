import Mathlib.Data.List.TakeWhile
import ViewHierarchy.Proofs.Source.Locality
import ViewHierarchy.Proofs.View.Closure
import ViewHierarchy.Proofs.View.Modifier

/-! White space at the end of a text. Every reader leaves it behind what it reads, so modifiers are
the same without it. -/
namespace ViewHierarchy
open Text Source

variable {s t w : List Char}

theorem trimLeft_blank (hw : ∀ c ∈ w, isBlank c = true) : trimLeft w = [] :=
  List.dropWhile_eq_nil_iff.2 hw

theorem trimLeft_append_cons {c : Char} (h : trimLeft s = c :: t) (w : List Char) :
    trimLeft (s ++ w) = c :: (t ++ w) := by
  rw [trimLeft_append (by rw [h]; exact List.cons_ne_nil c t), h, List.cons_append]

/-- White space behind a text brings no other character to its front. -/
theorem head?_trimLeft_append (hw : ∀ c ∈ w, isBlank c = true) (s : List Char) :
    (trimLeft (s ++ w)).head? = (trimLeft s).head? := by
  cases h : trimLeft s with
  | nil =>
    have hs : ∀ c ∈ s, isBlank c = true := List.dropWhile_eq_nil_iff.1 h
    rw [trimLeft_blank (List.forall_mem_append.2 ⟨hs, hw⟩)]
  | cons c t =>
    rw [trimLeft_append_cons h]
    rfl

theorem trimLeft_append_nil (hw : ∀ c ∈ w, isBlank c = true) (h : trimLeft s = []) :
    trimLeft (s ++ w) = [] := by
  rw [← List.head?_eq_none_iff, head?_trimLeft_append hw, h]
  rfl

theorem stops_isWord_blank (hw : ∀ c ∈ w, isBlank c = true) : Stops isWord w :=
  stops_of_forall fun c hc => isWord_of_isBlank (hw c hc)

theorem takeWhile_isWord_append (hw : ∀ c ∈ w, isBlank c = true) (s : List Char) :
    (s ++ w).takeWhile isWord = s.takeWhile isWord ∧
      (s ++ w).dropWhile isWord = s.dropWhile isWord ++ w := by
  have hstop := (stops_dropWhile isWord s).append (stops_isWord_blank hw)
  have hsplit : s ++ w = s.takeWhile isWord ++ (s.dropWhile isWord ++ w) := by
    rw [← List.append_assoc, List.takeWhile_append_dropWhile]
  have hword : ∀ c ∈ s.takeWhile isWord, isWord c = true := List.all_eq_true.1 List.all_takeWhile
  rw [hsplit]
  exact ⟨hstop.takeWhile_append hword, hstop.dropWhile_append hword⟩

/-- The label and the brace of a closure are found in the text itself. -/
theorem labelledBlock?_blank (hw : ∀ c ∈ w, isBlank c = true) (s : List Char) :
    labelledBlock? (s ++ w) = (labelledBlock? s).map (· ++ w) := by
  simp only [labelledBlock?, List.dropWhile_append]
  generalize (s.dropWhile fun c => c == ' ' || c == '\t') = t
  cases t with
  | nil =>
    have hstop : Stops isWord (w.dropWhile fun c => c == ' ' || c == '\t') :=
      stops_isWord_blank fun c hc => hw c ((List.dropWhile_sublist _).subset hc)
    have htake := hstop.takeWhile_append (List.forall_mem_nil _)
    rw [List.nil_append] at htake
    simp only [List.isEmpty_nil, if_true, htake, List.takeWhile_nil, Option.map_none]
  | cons c t =>
    obtain ⟨htake, hdrop⟩ := takeWhile_isWord_append hw (c :: t)
    simp only [List.isEmpty_cons, Bool.false_eq_true, if_false, htake, hdrop]
    cases (c :: t).takeWhile isWord with
    | nil => rfl
    | cons d label =>
      cases hcolon : trimLeft ((c :: t).dropWhile isWord) with
      | nil => rw [trimLeft_append_nil hw hcolon]; rfl
      | cons colon rest =>
        rw [trimLeft_append_cons hcolon]
        by_cases hc : colon = ':'
        · subst hc
          cases hbrace : trimLeft rest with
          | nil =>
            simp only [trimLeft_append_nil hw hbrace, hbrace]
            rfl
          | cons brace block =>
            simp only [trimLeft_append_cons hbrace, hbrace]
            by_cases hb : brace = '{'
            · subst hb
              rfl
            · simp [hb]
        · simp [hc]

/-- The second text is the first with white space behind it. -/
def Trails (s t : List Char) : Prop := ∃ w, (∀ c ∈ w, isBlank c = true) ∧ t = s ++ w

theorem labelledClosures_blank (hw : ∀ c ∈ w, isBlank c = true) (s : List Char) :
    (labelledClosures (s ++ w)).1 = (labelledClosures s).1 ∧
      Trails (labelledClosures s).2 (labelledClosures (s ++ w)).2 := by
  fun_induction labelledClosures s with
  | case1 s hb =>
    have hb' : labelledBlock? (s ++ w) = none := by
      rw [labelledBlock?_blank hw, hb, Option.map_none]
    rw [labelledClosures_unlabelled hb']
    exact ⟨rfl, w, hw, rfl⟩
  | case2 s block hb he =>
    have hb' : labelledBlock? (s ++ w) = some (block ++ w) := by
      rw [labelledBlock?_blank hw, hb, Option.map_some]
    have he' : enclosed? (block ++ w) = none := by rw [enclosed?_blank hw, he, Option.map_none]
    rw [labelledClosures_unclosed hb' he']
    exact ⟨rfl, [], List.forall_mem_nil _, rfl⟩
  | case3 s block hb inner rest he hlt more ih =>
    have hb' : labelledBlock? (s ++ w) = some (block ++ w) := by
      rw [labelledBlock?_blank hw, hb, Option.map_some]
    have he' : enclosed? (block ++ w) = some (inner, rest ++ w) := by
      rw [enclosed?_blank hw, he, Option.map_some]
    rw [labelledClosures_cons hb' he']
    exact ⟨congrArg (inner :: ·) ih.1, ih.2⟩

theorem modifierArguments_blank (hw : ∀ c ∈ w, isBlank c = true) (s : List Char) :
    (modifierArguments (s ++ w)).1 = (modifierArguments s).1 ∧
      Trails (modifierArguments s).2 (modifierArguments (s ++ w)).2 := by
  by_cases hround : ∃ rest, trimLeft s = '(' :: rest
  · obtain ⟨rest, hs⟩ := hround
    have henclosed := enclosed?_blank hw ('(' :: rest)
    rw [List.cons_append] at henclosed
    simp only [modifierArguments, hs, trimLeft_append_cons hs, henclosed]
    cases enclosed? ('(' :: rest) with
    | none => exact ⟨rfl, [], List.forall_mem_nil _, rfl⟩
    | some p => exact ⟨rfl, w, hw, rfl⟩
  · have hne : ∀ c ∈ (trimLeft s).head?, c ≠ '(' := by
      rintro c hc rfl
      obtain ⟨rest, hs⟩ := List.head?_eq_some_iff.1 hc
      exact hround ⟨rest, hs⟩
    rw [modifierArguments_none hne,
      modifierArguments_none (by rw [head?_trimLeft_append hw]; exact hne)]
    exact ⟨rfl, w, hw, rfl⟩

theorem afterModifierClosures_blank (hw : ∀ c ∈ w, isBlank c = true) (s : List Char) :
    Trails (afterModifierClosures s) (afterModifierClosures (s ++ w)) := by
  by_cases hcurly : ∃ rest, trimLeft s = '{' :: rest
  · obtain ⟨rest, hs⟩ := hcurly
    have henclosed := enclosed?_blank hw ('{' :: rest)
    rw [List.cons_append] at henclosed
    simp only [afterModifierClosures, hs, trimLeft_append_cons hs, henclosed]
    cases enclosed? ('{' :: rest) with
    | none => exact ⟨[], List.forall_mem_nil _, rfl⟩
    | some p => exact (labelledClosures_blank hw p.2).2
  · have hne : ∀ c ∈ (trimLeft s).head?, c ≠ '{' := by
      rintro c hc rfl
      obtain ⟨rest, hs⟩ := List.head?_eq_some_iff.1 hc
      exact hcurly ⟨rest, hs⟩
    rw [afterModifierClosures_none hne,
      afterModifierClosures_none (by rw [head?_trimLeft_append hw]; exact hne)]
    exact ⟨w, hw, rfl⟩

theorem modifier?_blank (hw : ∀ c ∈ w, isBlank c = true) (s : List Char) :
    modifier? s = none ∧ modifier? (s ++ w) = none ∨
      ∃ call after after', modifier? s = some (call, after) ∧
        modifier? (s ++ w) = some (call, after') ∧ Trails after after' := by
  obtain ⟨htake, hdrop⟩ := takeWhile_isWord_append hw s
  have harguments := modifierArguments_blank hw (s.dropWhile isWord)
  simp only [modifier?, htake, hdrop]
  generalize modifierArguments (s.dropWhile isWord) = p at harguments ⊢
  generalize modifierArguments (s.dropWhile isWord ++ w) = q at harguments ⊢
  obtain ⟨arguments, after⟩ := p
  obtain ⟨arguments', after'⟩ := q
  dsimp only [Trails] at harguments
  obtain ⟨rfl, w', hw', rfl⟩ := harguments
  cases s.takeWhile isWord with
  | nil => exact .inl ⟨rfl, rfl⟩
  | cons c name => exact .inr ⟨_, _, _, rfl, rfl, afterModifierClosures_blank hw' after⟩

theorem modifiersFrom_of_blank (depth : Int) (hw : ∀ c ∈ w, isBlank c = true) :
    modifiersFrom depth w = [] := by
  rw [← List.append_nil w, modifiersFrom_gap hw, modifiersFrom]

/-- No comment is opened by white space behind a slash. -/
theorem literal?_eq_none_blank {c : Char} (hw : ∀ c ∈ w, isBlank c = true)
    (h : literal? (c :: s) = none) : literal? (c :: (s ++ w)) = none := by
  obtain ⟨hquote, hslash⟩ := literal?_eq_none_iff.1 h
  refine literal?_eq_none_iff.2 ⟨hquote, fun hc => ?_⟩
  cases s with
  | nil =>
    constructor
    · intro hs
      exact absurd (hw '/' (List.mem_of_mem_head? hs)) (by decide)
    · intro hs
      exact absurd (hw '*' (List.mem_of_mem_head? hs)) (by decide)
  | cons d s => exact hslash hc

/-- White space at the end of a text holds no modifiers and ends none. -/
theorem modifiersFrom_blank (depth : Int) (hw : ∀ c ∈ w, isBlank c = true) (s : List Char) :
    modifiersFrom depth (s ++ w) = modifiersFrom depth s := by
  fun_induction modifiersFrom depth s generalizing w with
  | case1 depth => exact modifiersFrom_of_blank depth hw
  | case2 depth c rest role n hl ih =>
    obtain ⟨m, hl', hm⟩ := literal?_extend hl w
    rw [List.cons_append] at hl' ⊢
    rw [modifiersFrom_literal hl']
    rcases hm with rfl | ⟨hn, hle⟩
    · have hm := literal?_le hl
      rw [List.length_cons] at hm
      rw [List.drop_append_of_le_length (by omega), ih hw]
    · -- The literal reaches the end of the text, and white space is left of it at most.
      rw [List.length_cons] at hn hle
      have hleft : (rest ++ w).drop (m - 1) = w.drop (m - 1 - rest.length) := by
        rw [List.drop_append, List.drop_of_length_le (by omega), List.nil_append]
      have hright : rest.drop (n - 1) = [] := List.drop_of_length_le (by omega)
      rw [hleft, hright, modifiersFrom_of_blank depth fun c hc => hw c (List.mem_of_mem_drop hc),
        modifiersFrom]
  | case3 depth c rest hl ho ih =>
    rw [List.cons_append, modifiersFrom_opening (literal?_eq_none_blank hw hl) ho, ih hw]
  | case4 depth c rest hl ho hc ih =>
    rw [List.cons_append, modifiersFrom_closing (literal?_eq_none_blank hw hl)
      (Bool.not_eq_true _ ▸ ho) hc, ih hw]
  | case5 depth c rest hl ho hc hdot hm ih =>
    rw [List.cons_append, modifiersFrom_skip (literal?_eq_none_blank hw hl)
      (Bool.not_eq_true _ ▸ ho) (Bool.not_eq_true _ ▸ hc), ih hw]
    intro _
    rcases modifier?_blank hw rest with ⟨-, hnone⟩ | ⟨call, after, after', hsome, -⟩
    · exact hnone
    · cases hm.symm.trans hsome
  | case6 depth c rest hl ho hc hdot call after hm hlt ih =>
    obtain ⟨rfl, hdepth⟩ := hdot
    rcases modifier?_blank hw rest with ⟨hnone, -⟩ | ⟨call', after', after'', hsome, hext, htrails⟩
    · cases hm.symm.trans hnone
    · cases hm.symm.trans hsome
      obtain ⟨w', hw', rfl⟩ := htrails
      rw [List.cons_append, modifiersFrom_dot hdepth hext, ih hw']
  | case7 depth c rest hl ho hc hdot ih =>
    rw [List.cons_append, modifiersFrom_skip (literal?_eq_none_blank hw hl)
      (Bool.not_eq_true _ ▸ ho) (Bool.not_eq_true _ ▸ hc) (fun h => absurd h hdot), ih hw]

theorem modifiers_trimRight (s : List Char) : modifiers (trimRight s) = modifiers s := by
  obtain ⟨w, hs, hw⟩ := exists_trimRight s
  conv => rhs; rw [hs]
  exact (modifiersFrom_blank 0 hw (trimRight s)).symm

end ViewHierarchy
