import ViewHierarchy.Proofs.Source.Masking
import ViewHierarchy.Proofs.Source.Nesting

/-! Splitting at the top level. Every piece begins at depth zero, where the whole text does too, so
a piece is split on its own as it is within the text, whether or not its brackets are balanced. -/
namespace ViewHierarchy.Source
open Text (isBlank trim trimLeft trimRight joinWith)

variable {sep piece s t p : List Char} {d : Int} {m : Marked} {ms ns : List Marked}

/-- What a character does to the depth of brackets: all three kinds count, but in code only. -/
def Marked.stepDepth (d : Int) (m : Marked) : Int :=
  if m.2 ≠ .code then d else if isOpening m.1 then d + 1 else if isClosing m.1 then d - 1 else d

def depthAfter (d : Int) (ms : List Marked) : Int := ms.foldl Marked.stepDepth d

/-- A piece ends at this character, if the brackets in front of it have this depth. -/
structure Separates (sep : List Char) (d : Int) (m : Marked) : Prop where
  code : m.2 = .code
  not_opening : isOpening m.1 = false
  not_closing : isClosing m.1 = false
  sep_eq : sep = [m.1]
  depth_eq : d = 0

theorem piecesFrom_of_separates (h : Separates sep d m) (piece : List Char) (ms : List Marked) :
    piecesFrom sep d piece (m :: ms) = piece.reverse :: piecesFrom sep 0 [] ms := by
  obtain ⟨c, role⟩ := m
  obtain ⟨rfl, hopen, hclose, rfl, rfl⟩ := h
  rw [piecesFrom, if_neg (by simp [hopen]), if_neg (by simp [hclose]), if_pos (by simp)]

theorem piecesFrom_of_not_separates (h : ¬Separates sep d m) (piece : List Char)
    (ms : List Marked) :
    piecesFrom sep d piece (m :: ms) = piecesFrom sep (m.stepDepth d) (m.1 :: piece) ms := by
  obtain ⟨c, role⟩ := m
  by_cases hrole : role = .code
  · subst hrole
    cases hopen : isOpening c with
    | true => simp [piecesFrom, Marked.stepDepth, hopen]
    | false =>
      cases hclose : isClosing c with
      | true => simp [piecesFrom, Marked.stepDepth, hopen, hclose]
      | false =>
        have hsep : (sep == [c] && d == 0) = false := by
          rw [← Bool.not_eq_true, Bool.and_eq_true, beq_iff_eq, beq_iff_eq]
          exact fun hsep => h ⟨rfl, hopen, hclose, hsep.1, hsep.2⟩
        simp [piecesFrom, Marked.stepDepth, hopen, hclose, hsep]
  · rw [piecesFrom, Marked.stepDepth, if_pos hrole]
    exact hrole

/-- No piece ends within the text, if the brackets in front of it have this depth. -/
def Unsplit (sep : List Char) : Int → List Marked → Prop
  | _, [] => True
  | d, m :: ms => ¬Separates sep d m ∧ Unsplit sep (m.stepDepth d) ms

theorem unsplit_append :
    Unsplit sep d (ms ++ ns) ↔ Unsplit sep d ms ∧ Unsplit sep (depthAfter d ms) ns := by
  induction ms generalizing d with
  | nil => exact (and_iff_right trivial).symm
  | cons m ms ih =>
    rw [List.cons_append, Unsplit, Unsplit, ih, and_assoc]
    rfl

theorem Unsplit.piecesFrom_append (h : Unsplit sep d ms) (piece : List Char) (ns : List Marked) :
    piecesFrom sep d piece (ms ++ ns) =
      piecesFrom sep (depthAfter d ms) ((ms.map Prod.fst).reverse ++ piece) ns := by
  induction ms generalizing d piece with
  | nil => rfl
  | cons m ms ih =>
    obtain ⟨hm, hms⟩ := h
    rw [List.cons_append, piecesFrom_of_not_separates hm, ih hms, List.map_cons,
      List.reverse_cons, List.append_assoc]
    rfl

/-- The first character that ends a piece. -/
theorem exists_separator (h : ¬Unsplit sep d ms) :
    ∃ before m after, ms = before ++ m :: after ∧ Unsplit sep d before ∧
      Separates sep (depthAfter d before) m := by
  induction ms generalizing d with
  | nil => exact absurd trivial h
  | cons m ms ih =>
    by_cases hm : Separates sep d m
    · exact ⟨[], m, ms, rfl, trivial, hm⟩
    · obtain ⟨before, n, after, rfl, hbefore, hn⟩ := ih fun hms => h ⟨hm, hms⟩
      exact ⟨m :: before, n, after, rfl, ⟨hm, hbefore⟩, hn⟩

/-- What was read of a piece so far goes in front of its rest, and of nothing else. -/
theorem exists_piecesFrom (sep : List Char) (d : Int) (ms : List Marked) :
    ∃ first others, ∀ piece, piecesFrom sep d piece ms = (piece.reverse ++ first) :: others := by
  induction ms generalizing d with
  | nil => exact ⟨[], [], fun piece => by rw [piecesFrom, List.append_nil]⟩
  | cons m ms ih =>
    by_cases hm : Separates sep d m
    · exact ⟨[], piecesFrom sep 0 [] ms, fun piece => by
        rw [piecesFrom_of_separates hm, List.append_nil]⟩
    · obtain ⟨first, others, hpieces⟩ := ih (m.stepDepth d)
      refine ⟨m.1 :: first, others, fun piece => ?_⟩
      rw [piecesFrom_of_not_separates hm, hpieces, List.reverse_cons, List.append_assoc,
        List.singleton_append]

/-- The text is one piece, when commas separate. -/
def IsPiece (s : List Char) : Prop := Unsplit [','] 0 (mark s)

theorem IsPiece.splitTopLevel_eq (h : IsPiece s) :
    splitTopLevel [','] s = [trim s].filter (!·.isEmpty) := by
  have hpieces := h.piecesFrom_append [] []
  rw [List.append_nil, List.append_nil, piecesFrom, List.reverse_reverse, map_fst_mark] at hpieces
  rw [splitTopLevel, hpieces, List.map_singleton]

/-- A text is split at its first comma at the top level, and both sides are split on their own. -/
theorem IsPiece.splitTopLevel_append (h : IsPiece s) (hdepth : depthAfter 0 (mark s) = 0)
    (hmark : mark (s ++ ',' :: t) = mark s ++ (',', .code) :: mark t) :
    splitTopLevel [','] (s ++ ',' :: t) = splitTopLevel [','] s ++ splitTopLevel [','] t := by
  have hcomma : Separates [','] 0 (',', .code) := ⟨rfl, rfl, rfl, rfl, rfl⟩
  rw [h.splitTopLevel_eq, splitTopLevel, hmark, h.piecesFrom_append, hdepth,
    piecesFrom_of_separates hcomma, List.append_nil, List.reverse_reverse, map_fst_mark,
    ← List.singleton_append, List.map_append, List.filter_append, splitTopLevel]
  rfl

/-- The first comma at the top level. -/
theorem exists_comma (h : ¬IsPiece s) :
    ∃ p t, s = p ++ ',' :: t ∧ IsPiece p ∧ depthAfter 0 (mark p) = 0 ∧
      mark s = mark p ++ (',', .code) :: mark t := by
  obtain ⟨before, ⟨c, role⟩, after, hmark, hbefore, hcode, -, -, hsep, hdepth⟩ :=
    exists_separator h
  cases hcode
  cases hsep
  have hcomma : (mark s)[before.length]? = some (',', .code) := by
    rw [hmark, List.getElem?_append_right (Nat.le_refl _), Nat.sub_self]
    rfl
  obtain ⟨p, t, rfl, hp⟩ := split_at_mark hcomma
  have hsplit := mark_split (hp ▸ hcomma)
  obtain ⟨rfl, -⟩ := List.append_inj (hmark.symm.trans hsplit) (by rw [length_mark, hp])
  exact ⟨p, t, rfl, hbefore, hdepth, hsplit⟩

/-- Cutting a text at its first comma at the top level, as long as it has one. -/
theorem splitting_induction {motive : List Char → Prop}
    (piece : ∀ s, IsPiece s → motive s)
    (comma : ∀ s t, IsPiece s →
      splitTopLevel [','] (s ++ ',' :: t) = splitTopLevel [','] s ++ splitTopLevel [','] t →
      motive t → motive (s ++ ',' :: t))
    (s : List Char) : motive s := by
  by_cases h : IsPiece s
  · exact piece s h
  · obtain ⟨p, t, hs, hp, hdepth, hmark⟩ := exists_comma h
    rw [hs] at hmark ⊢
    exact comma p t hp (hp.splitTopLevel_append hdepth hmark) (splitting_induction piece comma t)
termination_by s.length
decreasing_by
  rw [hs, List.length_append, List.length_cons]
  omega

theorem splitTopLevel_eq_self_iff (hne : p ≠ []) (htrim : trim p = p) :
    splitTopLevel [','] p = [p] ↔ IsPiece p := by
  constructor
  · intro h
    induction p using splitting_induction with
    | piece s hs => exact hs
    | comma s t _ hsplit _ =>
      -- Both sides of a comma are shorter than the text, so the text is none of their pieces.
      have hmem : s ++ ',' :: t ∈ splitTopLevel [','] s ++ splitTopLevel [','] t := by
        rw [← hsplit, h]
        exact List.mem_singleton_self _
      have hlen : (s ++ ',' :: t).length = s.length + t.length + 1 := by
        rw [List.length_append, List.length_cons, Nat.add_assoc]
      rcases List.mem_append.1 hmem with hs | ht
      · have := length_of_mem_splitTopLevel hs
        omega
      · have := length_of_mem_splitTopLevel ht
        omega
  · intro h
    rw [h.splitTopLevel_eq, htrim]
    exact List.filter_cons_of_pos (by simpa using hne)

/-- Characters that are neither brackets nor commas end no piece and leave the depth as it is. -/
theorem unsplit_ordinary (h : ∀ c ∈ s, isOrdinary c = true ∧ c ≠ ',') (d : Int) :
    Unsplit [','] d (s.map (·, .code)) ∧ depthAfter d (s.map (·, .code)) = d := by
  induction s with
  | nil => exact ⟨trivial, rfl⟩
  | cons c s ih =>
    obtain ⟨⟨hc, hcomma⟩, hs⟩ := List.forall_mem_cons.1 h
    obtain ⟨hopen, hclose, -⟩ := isOrdinary_iff.1 hc
    have hstep : Marked.stepDepth d (c, .code) = d := by
      simp [Marked.stepDepth, hopen, hclose]
    have hnot : ¬Separates [','] d (c, .code) := fun hsep =>
      hcomma (List.cons.inj hsep.sep_eq).1.symm
    obtain ⟨hunsplit, hdepth⟩ := ih hs
    refine ⟨⟨hnot, ?_⟩, ?_⟩
    · rwa [hstep]
    · rw [List.map_cons, depthAfter, List.foldl_cons, hstep]
      exact hdepth

theorem ordinary_of_blank (h : ∀ c ∈ s, isBlank c = true) :
    ∀ c ∈ s, isOrdinary c = true ∧ c ≠ ',' := by
  intro c hc
  refine ⟨isOrdinary_of_isBlank (h c hc), ?_⟩
  rintro rfl
  exact absurd (h _ hc) (by decide)

theorem mark_ordinary_append (h : ∀ c ∈ s, isOrdinary c = true ∧ c ≠ ',') (t : List Char) :
    mark (s ++ t) = s.map (·, .code) ++ mark t :=
  (tidy_of_ordinary fun c hc => (h c hc).1).plain.mark_append t

/-- White space in front of a text does not matter. -/
theorem splitTopLevel_blank (h : ∀ c ∈ s, isBlank c = true) (t : List Char) :
    splitTopLevel [','] (s ++ t) = splitTopLevel [','] t := by
  have hs := ordinary_of_blank h
  obtain ⟨hunsplit, hdepth⟩ := unsplit_ordinary hs 0
  obtain ⟨first, others, hpieces⟩ := exists_piecesFrom [','] 0 (mark t)
  have hfst : (s.map (·, Role.code)).map Prod.fst = s := by
    rw [List.map_map]
    exact List.map_id s
  have htrim : trim (s ++ first) = trim first := by
    rw [trim, Text.trimLeft_blank_append h, trim]
  rw [splitTopLevel, mark_ordinary_append hs, hunsplit.piecesFrom_append, hdepth, hfst,
    List.append_nil, hpieces, List.reverse_reverse, splitTopLevel, hpieces, List.reverse_nil,
    List.nil_append, List.map_cons, List.map_cons, htrim]

/-- Trimming leaves one piece. -/
theorem IsPiece.trim (h : IsPiece s) : IsPiece (trim s) := by
  have hleft : IsPiece (trimLeft s) := by
    obtain ⟨w, hs, hw⟩ := Text.exists_trimLeft s
    rw [IsPiece, hs, mark_ordinary_append (ordinary_of_blank hw), unsplit_append,
      (unsplit_ordinary (ordinary_of_blank hw) 0).2] at h
    exact h.2
  obtain ⟨w, hs, hw⟩ := Text.exists_trimRight (trimLeft s)
  -- White space at the end may belong to an open literal; only the marks before it stay the same.
  have hprefix : mark (trimRight (trimLeft s)) <+: mark (trimRight (trimLeft s) ++ w) := by
    apply mark_isPrefix
    intro c hc
    have hblank := hw c (List.mem_of_mem_head? hc)
    constructor <;> rintro rfl <;> exact absurd hblank (by decide)
  obtain ⟨ns, hns⟩ := hprefix
  rw [IsPiece, hs, ← hns, unsplit_append] at hleft
  exact hleft.1

/-- Each part of a text is a single part on its own. -/
theorem splitTopLevel_part (h : p ∈ splitTopLevel [','] t) : splitTopLevel [','] p = [p] := by
  induction t using splitting_induction with
  | piece s hs =>
    rw [hs.splitTopLevel_eq, List.mem_filter, List.mem_singleton] at h
    obtain ⟨rfl, hne⟩ := h
    exact (splitTopLevel_eq_self_iff (by simpa using hne) (Text.trim_idem s)).2 hs.trim
  | comma s t hs hsplit ih =>
    rw [hsplit, hs.splitTopLevel_eq, List.mem_append, List.mem_filter, List.mem_singleton] at h
    rcases h with ⟨rfl, hne⟩ | h
    · exact (splitTopLevel_eq_self_iff (by simpa using hne) (Text.trim_idem s)).2 hs.trim
    · exact ih h

/-- The parts stand in the text one behind the other, with white space and commas around them. -/
inductive Interspersed : List (List Char) → List Char → Prop
  | gap {gap} : (∀ c ∈ gap, isBlank c = true ∨ c = ',') → Interspersed [] gap
  | part {gap part parts t} : (∀ c ∈ gap, isBlank c = true ∨ c = ',') → Interspersed parts t →
      Interspersed (part :: parts) (gap ++ (part ++ t))

theorem Interspersed.gap_append {gap : List Char} {parts : List (List Char)}
    (hgap : ∀ c ∈ gap, isBlank c = true ∨ c = ',') (h : Interspersed parts t) :
    Interspersed parts (gap ++ t) := by
  cases h with
  | gap ht => exact .gap (List.forall_mem_append.2 ⟨hgap, ht⟩)
  | part hbefore ht =>
    rw [← List.append_assoc]
    exact .part (List.forall_mem_append.2 ⟨hgap, hbefore⟩) ht

theorem Interspersed.append_comma {parts others : List (List Char)} (hs : Interspersed parts s)
    (ht : Interspersed others t) : Interspersed (parts ++ others) (s ++ ',' :: t) := by
  induction hs with
  | gap hgap =>
    rw [List.append_cons]
    exact ht.gap_append (List.forall_mem_append.2 ⟨hgap, List.forall_mem_singleton.2 (.inr rfl)⟩)
  | part hgap _ ih =>
    rw [List.append_assoc, List.append_assoc]
    exact .part hgap ih

theorem IsPiece.interspersed (h : IsPiece s) : Interspersed (splitTopLevel [','] s) s := by
  obtain ⟨w, hs, hw⟩ := Text.exists_trimLeft s
  obtain ⟨w', hs', hw'⟩ := Text.exists_trimRight (trimLeft s)
  have htext : w ++ (Text.trim s ++ w') = s := (hs.trans (congrArg (w ++ ·) hs')).symm
  have hgap : ∀ {u : List Char}, (∀ c ∈ u, isBlank c = true) →
      ∀ c ∈ u, isBlank c = true ∨ c = ',' :=
    fun hu c hc => .inl (hu c hc)
  rw [h.splitTopLevel_eq]
  by_cases hnil : Text.trim s = []
  · rw [hnil, List.nil_append] at htext
    rw [hnil, ← htext]
    exact .gap (List.forall_mem_append.2 ⟨hgap hw, hgap hw'⟩)
  · have hfilter : [Text.trim s].filter (!·.isEmpty) = [Text.trim s] :=
      List.filter_cons_of_pos (by simpa using hnil)
    have hparts : Interspersed [Text.trim s] (w ++ (Text.trim s ++ w')) :=
      .part (hgap hw) (.gap (hgap hw'))
    rw [htext] at hparts
    rwa [hfilter]

theorem splitTopLevel_interspersed (t : List Char) :
    Interspersed (splitTopLevel [','] t) t := by
  induction t using splitting_induction with
  | piece s hs => exact hs.interspersed
  | comma s t hs hsplit ih =>
    rw [hsplit]
    exact hs.interspersed.append_comma ih

/-- A text that stands between commas as one part. -/
structure IsPart (p : List Char) : Prop where
  ne_nil : p ≠ []
  trim_eq : trim p = p
  split_eq : splitTopLevel [','] p = [p]
  depth_eq : depthAfter 0 (mark p) = 0
  closed : (mask (p ++ [','])).getLast? = some ','

instance (p : List Char) : Decidable (IsPart p) :=
  decidable_of_iff (p ≠ [] ∧ trim p = p ∧ splitTopLevel [','] p = [p] ∧
      depthAfter 0 (mark p) = 0 ∧ (mask (p ++ [','])).getLast? = some ',')
    ⟨fun ⟨h₁, h₂, h₃, h₄, h₅⟩ => ⟨h₁, h₂, h₃, h₄, h₅⟩,
      fun ⟨h₁, h₂, h₃, h₄, h₅⟩ => ⟨h₁, h₂, h₃, h₄, h₅⟩⟩

/-- A comma behind a part is code, whatever stands behind the comma. -/
theorem IsPart.mark_append (h : IsPart p) (t : List Char) :
    mark (p ++ ',' :: t) = mark p ++ (',', .code) :: mark t := by
  have hlast := h.closed
  rw [mask, List.getLast?_eq_getElem?, List.getElem?_map] at hlast
  obtain ⟨m, hm, hmasked⟩ := Option.map_eq_some_iff.1 hlast
  have hcode : (mark (p ++ [',']))[p.length]? = some (',', .code) := by
    rw [code_of_masked (m := m) (by rw [hmasked]; decide) (by rw [hmasked]; decide), hmasked] at hm
    simpa using hm
  rw [((seam_of_code hcode).1.replace t).mark_append,
    mark_cons (literal?_eq_none t (by decide) (by decide))]

theorem isPart_of_ordinary (hne : p ≠ []) (htrim : trim p = p)
    (h : ∀ c ∈ p, isOrdinary c = true ∧ c ≠ ',') : IsPart p := by
  have hmark := mark_ordinary_append h []
  rw [List.append_nil, mark_nil, List.append_nil] at hmark
  obtain ⟨hunsplit, hdepth⟩ := unsplit_ordinary h 0
  rw [← hmark] at hunsplit hdepth
  refine ⟨hne, htrim, (splitTopLevel_eq_self_iff hne htrim).2 hunsplit, hdepth, ?_⟩
  rw [mask, mark_ordinary_append h, List.map_append]
  exact List.getLast?_concat

/-- Parts that are joined are split into the same parts. -/
theorem splitTopLevel_joinWith {parts : List (List Char)} (h : ∀ p ∈ parts, IsPart p) :
    splitTopLevel [','] (joinWith [',', ' '] parts) = parts := by
  induction parts with
  | nil => rfl
  | cons p rest ih =>
    obtain ⟨hp, hrest⟩ := List.forall_mem_cons.1 h
    cases rest with
    | nil => exact hp.split_eq
    | cons q rest =>
      have hpiece := (splitTopLevel_eq_self_iff hp.ne_nil hp.trim_eq).1 hp.split_eq
      have hspace : ∀ c ∈ [' '], isBlank c = true := List.forall_mem_singleton.2 rfl
      have hafter := splitTopLevel_blank hspace (joinWith [',', ' '] (q :: rest))
      rw [joinWith, List.append_assoc, List.cons_append,
        hpiece.splitTopLevel_append hp.depth_eq (hp.mark_append _), hp.split_eq, hafter, ih hrest,
        List.singleton_append]

/-- Splitting undoes joining. Every text is made of its parts in their order, with only white space
and commas around them, and no part is split further. -/
theorem splitTopLevel_parts :
    (∀ parts, (∀ p ∈ parts, IsPart p) →
      splitTopLevel [','] (joinWith [',', ' '] parts) = parts) ∧
    ∀ t, Interspersed (splitTopLevel [','] t) t ∧
      ∀ p ∈ splitTopLevel [','] t, splitTopLevel [','] p = [p] :=
  ⟨fun _ h => splitTopLevel_joinWith h,
    fun t => ⟨splitTopLevel_interspersed t, fun _ hp => splitTopLevel_part hp⟩⟩

/-- A call with a comma of its own, a string with brackets that do not match, and a word. -/
theorem splitTopLevel_three_parts :
    (∀ p ∈ [['f', '(', 'a', ',', 'b', ')'], ['"', ',', ')', '"'], ['x']], IsPart p) ∧
      splitTopLevel [',']
          ['f', '(', 'a', ',', 'b', ')', ',', ' ', '"', ',', ')', '"', ',', ' ', 'x'] =
        [['f', '(', 'a', ',', 'b', ')'], ['"', ',', ')', '"'], ['x']] := by
  have hparts : ∀ p ∈ [['f', '(', 'a', ',', 'b', ')'], ['"', ',', ')', '"'], ['x']], IsPart p := by
    decide
  exact ⟨hparts, splitTopLevel_parts.1 _ hparts⟩

end ViewHierarchy.Source
