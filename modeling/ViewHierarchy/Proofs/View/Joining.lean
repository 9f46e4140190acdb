import ViewHierarchy.Proofs.Source.Skipping
import ViewHierarchy.Proofs.View.Conditional
import ViewHierarchy.Proofs.View.Passing

/-! Blocks joined by a line break. Whatever is read in the first one is read as if nothing came
behind it, and what is left of it is joined with the second one in the same way. -/
namespace ViewHierarchy
open Text Source

variable {b s t p rest : List Char} {before : Char}

/-- What is left of a block that comes before the line break, with the character in front of it. -/
structure Remains (b : List Char) (before : Char) (s : List Char) : Prop where
  seam : Seam ('\n' :: b) s
  nested : Nested (mark s)
  noElse : ¬EndsIn "else".toList before s

theorem Remains.cut (h : Remains b before (p ++ t)) (hp : Seam t p) (ht : Nested (mark t)) :
    Remains b (p.getLastD before) t := by
  refine ⟨(hp.split h.seam).2, ht, ?_⟩
  intro hend
  exact h.noElse (hend.before (by decide) hp)

/-- What is cut off without a bracket. -/
theorem Remains.cut_flat (h : Remains b before (p ++ t)) (hp : Seam t p)
    (hflat : ∀ m ∈ mark p, m.isBracket = false) : Remains b (p.getLastD before) t := by
  apply h.cut hp
  have hn := h.nested
  rw [hp.mark_append] at hn
  exact hn.of_append hflat

theorem Remains.skip {class_ : Marked → Bool} (h : Remains b before s) (hp : Uniform class_)
    (hflat : ∀ m, class_ m = true → m.isBracket = false) :
    ∃ between, Remains b between (Source.skip class_ s) := by
  obtain ⟨w, hs, hseam, hw⟩ := exists_skip hp s
  rw [hs] at h
  exact ⟨_, h.cut_flat hseam fun m hm => hflat m (hw m hm)⟩

theorem Remains.enclosed {o c : Char} (h : Remains b before (o :: s)) (hc : closing? o = some c) :
    ∃ inner rest, enclosed? (o :: s) = some (inner, rest) ∧
      enclosed? (o :: (s ++ '\n' :: b)) = some (inner, rest ++ '\n' :: b) ∧ Remains b c rest := by
  obtain ⟨inner, rest, he, hs, hseam, hrest⟩ := h.nested.exists_enclosed hc
  refine ⟨inner, rest, he, ?_, ?_⟩
  · exact enclosed?_append he ⟨_, (h.seam.tail (literal?_of_closing? hc s)).2.mark_append.symm⟩
  · rw [hs, List.append_cons, ← List.cons_append] at h
    have := h.cut hseam hrest
    rwa [← List.cons_append, getLastD_append] at this

/-- What is cut off is made of characters that neither open a literal nor are brackets. -/
theorem Remains.cut_ordinary {w : List Char} (h : Remains b before (w ++ t))
    (hw : ∀ c ∈ w, isOrdinary c = true) : Remains b (w.getLastD before) t := by
  have hplain := (tidy_of_ordinary hw).plain
  apply h.cut_flat (hplain.seam t)
  rw [hplain.mark]
  intro m hm
  obtain ⟨c, hc, rfl⟩ := List.mem_map.1 hm
  exact isBracket_of_isOrdinary (hw c hc)

/-- The rest of what remains, cut off where the marks are those of code. -/
theorem Remains.drop {n : Nat} (h : Remains b before s)
    (hcode : ∀ m, (mark s)[n]? = some m → m.2 = .code) (hn : Nested ((mark s).drop n)) :
    Remains b ((s.take n).getLastD before) (s.drop n) := by
  have hseam := seam_of_boundary hcode
  apply Remains.cut _ hseam
  · rwa [mark_drop hseam]
  · rwa [List.take_append_drop]

theorem Remains.clause {clause : Clause} (h : Remains b before s)
    (hc : clause? s = some (clause, rest)) :
    clause? (s ++ '\n' :: b) = some (clause, rest ++ '\n' :: b) ∧ Remains b '}' rest := by
  refine ⟨clause?_append hc (by rintro d ⟨⟩; decide), ?_⟩
  obtain ⟨n, hn, hc⟩ := Option.bind_eq_some_iff.1 hc
  obtain ⟨⟨block, rest'⟩, he, hc⟩ := Option.bind_eq_some_iff.1 hc
  cases hc
  obtain ⟨w, hs, hw⟩ := exists_trimLeft s
  generalize trimLeft s = y at *
  rw [hs] at h
  have hy := h.cut_ordinary fun c hc => isOrdinary_of_isBlank (hw c hc)
  obtain ⟨hget, hdrop⟩ := nested_drop_condition hy.nested hn
  have hz := hy.drop (n := n) (by rw [hget]; rintro m ⟨⟩; rfl) hdrop
  obtain ⟨condition, z, rfl, rfl⟩ := split_at_mark hget
  rw [List.drop_left] at hz he
  obtain ⟨inner, after, he', -, hafter⟩ := hz.enclosed (c := '}') rfl
  cases he.symm.trans he'
  exact hafter

/-- The second block neither goes on with a chain nor with an alternative. -/
structure Starts (b : List Char) : Prop where
  noChain : continuesChain (mark b) = false
  noElse : startsWithWord "else".toList (dropTrivia b) = false

theorem continuesChain_mark (s : List Char) :
    continuesChain (mark s) = ((dropTrivia s).head?).any fun c => c == '.' := by
  rw [dropTrivia_eq_skip, ← map_fst_dropWhile, List.head?_map, Option.any_map]
  rfl

theorem dropTrivia_line (h : Seam ('\n' :: b) s) : dropTrivia (s ++ '\n' :: b) =
    if dropTrivia s = [] then dropTrivia b else dropTrivia s ++ '\n' :: b := by
  rw [dropTrivia_eq_skip, skip_append h, ← dropTrivia_eq_skip, ← dropTrivia_eq_skip,
    dropTrivia_cons (by decide)]

theorem dropSeparators_line (h : Seam ('\n' :: b) s) : dropSeparators (s ++ '\n' :: b) =
    if dropSeparators s = [] then dropSeparators b else dropSeparators s ++ '\n' :: b := by
  rw [dropSeparators_eq_skip, skip_append h, ← dropSeparators_eq_skip, ← dropSeparators_eq_skip,
    dropSeparators_cons (by decide)]

theorem ordinary_else : ∀ c ∈ "else".toList, isOrdinary c = true :=
  isOrdinary_of_isIdentifier (by decide)

/-- The word else behind a block is followed by more than trivia. -/
theorem Remains.dropTrivia_else (h : Remains b before (p ++ ("else".toList ++ t)))
    (hseam : Seam ("else".toList ++ t) p) (hp : ∀ m ∈ mark p, m.isTrivia = true)
    (hbefore : isWord before = false) : dropTrivia t ≠ [] := by
  intro hnil
  have hplain := (tidy_of_ordinary ordinary_else).plain
  obtain ⟨w, ht, -, hw⟩ := exists_skip uniform_isTrivia t
  rw [← dropTrivia_eq_skip, hnil, List.append_nil] at ht
  subst ht
  have helse : dropTrailingTrivia ("else".toList ++ t) = "else".toList := by
    rw [dropTrailingTrivia_trivia (hplain.seam t).mark_append hw]
    decide
  apply h.noElse
  refine ⟨p, ?_, ?_⟩
  · rw [dropTrailingTrivia_append hseam.mark_append, helse]
    rw [helse]
    decide
  · exact isWord_getLastD_trivia hseam (by decide) hp hbefore

theorem afterElse?_of_false (h : startsWithWord "else".toList (dropTrivia s) = false) :
    afterElse? s = none := by
  rw [afterElse?]
  exact if_neg (by simpa using h)

theorem afterElse?_of_eq (h : dropTrivia s = "else".toList ++ t)
    (hword : startsWithWord "else".toList (dropTrivia s) = true) :
    afterElse? s = some (dropTrivia t) := by
  have hif : afterElse? s = some (dropTrivia ((dropTrivia s).drop 4)) := if_pos hword
  rw [hif, h]
  rfl

/-- What follows a block goes on with an alternative, or not, in the same way before the line
break. -/
theorem Remains.afterElse (h : Remains b before rest) (hbefore : isWord before = false)
    (hb : Starts b) : (afterElse? rest = none ∧ afterElse? (rest ++ '\n' :: b) = none) ∨
      ∃ after between, afterElse? rest = some after ∧
        afterElse? (rest ++ '\n' :: b) = some (after ++ '\n' :: b) ∧ after ≠ [] ∧
        Remains b between after := by
  have hline := dropTrivia_line h.seam
  have hword : startsWithWord "else".toList (dropTrivia rest ++ '\n' :: b) =
      startsWithWord "else".toList (dropTrivia rest) :=
    startsWithWord_append_cons (isWord_of_isIdentifier (by decide)) (by decide) _ _
  by_cases hnil : dropTrivia rest = []
  · rw [if_pos hnil] at hline
    left
    constructor
    · apply afterElse?_of_false
      rw [hnil]
      rfl
    · apply afterElse?_of_false
      rw [hline]
      exact hb.noElse
  · rw [if_neg hnil] at hline
    rw [← hline] at hword
    cases helse : startsWithWord "else".toList (dropTrivia rest) with
    | false => exact .inl ⟨afterElse?_of_false helse, afterElse?_of_false (hword.trans helse)⟩
    | true =>
      obtain ⟨t, ht⟩ := List.isPrefixOf_iff_prefix.1 (Bool.and_eq_true _ _ ▸ helse).1
      obtain ⟨w, hw, hseam, htrivia⟩ := exists_skip uniform_isTrivia rest
      rw [← dropTrivia_eq_skip, ← ht] at hw hseam
      rw [hw] at h
      have hne := h.dropTrivia_else hseam htrivia hbefore
      have hflat : ∀ m : Marked, m.isTrivia = true → m.isBracket = false :=
        fun m hm => isBracket_of_isSeparator (isSeparator_of_isTrivia hm)
      have hword' := h.cut_flat hseam fun m hm => hflat m (htrivia m hm)
      have hrest := hword'.cut_ordinary ordinary_else
      obtain ⟨between, hafter⟩ := hrest.skip uniform_isTrivia hflat
      rw [← dropTrivia_eq_skip] at hafter
      refine .inr ⟨dropTrivia t, between, afterElse?_of_eq ht.symm helse, ?_, hne, hafter⟩
      rw [← ht, List.append_assoc] at hline
      rw [afterElse?_of_eq hline (hword.trans helse), dropTrivia_line hrest.seam, if_neg hne]

theorem startsWithIf_iff : startsWithIf s = true ↔ ∃ t, s = 'i' :: 'f' :: t ∧ Stops isWord t :=
  startsWithWord_eq_true

/-- An expression that starts with the word if keeps it. -/
theorem startsWithIf_headExpression (h : startsWithIf s = true) :
    startsWithIf (headExpression s).1 = true := by
  obtain ⟨t, rfl, ht⟩ := startsWithIf_iff.1 h
  have hlength :
      expressionLength 0 (mark ('i' :: 'f' :: t)) = expressionLength 0 (mark t) + 1 + 1 := by
    rw [mark_cons (literal?_eq_none _ (by decide) (by decide)),
      mark_cons (literal?_eq_none _ (by decide) (by decide)), expressionLength_skip rfl,
      if_neg (by simp), expressionLength_skip rfl, if_neg (by simp)]
  have hmax (n : Nat) : max (n + 1 + 1) 1 = n + 1 + 1 := by omega
  have htrim : ∀ u, trim ('i' :: 'f' :: u) = 'i' :: 'f' :: trimRight u := by
    intro u
    rw [trim, trimLeft_kept rfl]
    exact trimRight_append (s := ['i', 'f']) (stops_cons rfl _) u
  simp only [headExpression, hlength, hmax, List.take_succ_cons, htrim]
  refine startsWithIf_iff.2 ⟨_, rfl, ht.of_prefix ?_⟩
  exact (trimRight_isPrefix _).trans (List.take_prefix _ _)

theorem exists_mem_siblings_if (h : startsWithIf s = true) (hr : Conditional.read? s = none) :
    ∃ text, .expression text ∈ siblings s ∧ startsWithIf text = true := by
  have hexpression := startsWithIf_headExpression h
  have hc : headConditional? s = none := by rw [headConditional?, if_pos h, hr]
  obtain ⟨t, rfl, -⟩ := startsWithIf_iff.1 h
  have hd := dropSeparators_of_isAsciiRest (show isAsciiRest 'i' = true by decide) ('f' :: t)
  refine ⟨_, ?_, hexpression⟩
  rw [siblings_expression hd hc]
  exact List.mem_cons_self

/-- No expression of a block starts with the word if. -/
def IfsRead (s : List Char) : Prop :=
  ∀ text, .expression text ∈ siblings s → startsWithIf text = false

theorem startsWithIf_line (s b : List Char) : startsWithIf (s ++ '\n' :: b) = startsWithIf s :=
  startsWithWord_append_cons (isWord_of_isIdentifier (by decide)) (by decide) s b

theorem Remains.clause_if {clause : Clause} (h : Remains b before s) (hif : startsWithIf s = true)
    (hc : clause? (s.drop 2) = some (clause, rest)) :
    clause? ((s ++ '\n' :: b).drop 2) = some (clause, rest ++ '\n' :: b) ∧ Remains b '}' rest := by
  obtain ⟨t, rfl, -⟩ := startsWithIf_iff.1 hif
  have hword : ∀ c ∈ ['i', 'f'], isOrdinary c = true := isOrdinary_of_isIdentifier (by decide)
  exact Remains.clause (Remains.cut_ordinary h hword) hc

/-- An alternative that is no conditional without a block is read in the same way before the line
break. -/
theorem Remains.read_else {condition block after : List Char} (h : Remains b before s)
    (hb : Starts b) (hif : startsWithIf s = true)
    (hc : clause? (s.drop 2) = some (⟨condition, block⟩, rest))
    (he : afterElse? rest = some after) :
    (∃ between, Remains b between after) ∧ Conditional.read? (s ++ '\n' :: b) =
      if startsWithIf after then
        match Conditional.read? (after ++ '\n' :: b) with
        | none => some (.plain condition block, after ++ '\n' :: b)
        | some (next, rest) => some (.chain condition block next, rest)
      else if after.head? = some '{' then
        match enclosed? (after ++ '\n' :: b) with
        | none => some (.unfinished condition block, [])
        | some (otherwise, rest) => some (.alternative condition block otherwise, rest)
      else some (.plain condition block, after ++ '\n' :: b) := by
  obtain ⟨hclause, hrest⟩ := h.clause_if hif hc
  rcases hrest.afterElse (by decide) hb with ⟨hnone, -⟩ | ⟨after', between, he', hline, hne, hafter⟩
  · cases hnone.symm.trans he
  · cases he'.symm.trans he
    obtain ⟨d, t, rfl⟩ := List.exists_cons_of_ne_nil hne
    refine ⟨⟨between, hafter⟩, ?_⟩
    rw [read?_else hclause hline, startsWithIf_line]
    rfl

/-- A conditional is read in the same way before the line break, if nothing is left that looks like
one. -/
theorem Remains.read {c : Conditional} (h : Remains b before s) (hb : Starts b)
    (hif : startsWithIf s = true) (hr : Conditional.read? s = some (c, rest))
    (hrest : IfsRead rest) :
    Conditional.read? (s ++ '\n' :: b) = some (c, rest ++ '\n' :: b) ∧
      ∃ between, Remains b between rest := by
  fun_induction Conditional.read? s generalizing c rest before with
  | case1 => cases hr
  | case2 s condition block after hc he =>
    cases hr
    obtain ⟨hclause, hafter⟩ := h.clause_if hif hc
    refine ⟨?_, _, hafter⟩
    rcases hafter.afterElse (by decide) hb with ⟨-, hnone⟩ | ⟨after', between, he', -⟩
    · exact read?_plain hclause hnone
    · cases he.symm.trans he'
  | case3 s condition block rest' hc after he hlt hif' hnone ih =>
    cases hr
    obtain ⟨text, hmem, htext⟩ := exists_mem_siblings_if hif' hnone
    exact absurd htext (by rw [hrest text hmem]; exact Bool.false_ne_true)
  | case4 s condition block rest' hc after he hlt hif' next rest'' hnext ih =>
    cases hr
    obtain ⟨⟨between, hafter⟩, hread⟩ := h.read_else hb hif hc he
    obtain ⟨hline, hremains⟩ := ih hafter hif' hnext hrest
    rw [hread, if_pos hif', hline]
    exact ⟨rfl, hremains⟩
  | case5 s condition block rest' hc after he hlt hif' hbrace hnone =>
    obtain ⟨⟨between, hafter⟩, -⟩ := h.read_else hb hif hc he
    obtain ⟨t, rfl⟩ := List.head?_eq_some_iff.1 hbrace
    obtain ⟨inner, more, hsome, -⟩ := hafter.enclosed (c := '}') rfl
    cases hnone.symm.trans hsome
  | case6 s condition block rest' hc after he hlt hif' hbrace otherwise rest'' hblock =>
    cases hr
    obtain ⟨⟨between, hafter⟩, hread⟩ := h.read_else hb hif hc he
    rw [hread, if_neg hif', if_pos hbrace]
    obtain ⟨t, rfl⟩ := List.head?_eq_some_iff.1 hbrace
    obtain ⟨inner, more, hsome, hline, hmore⟩ := hafter.enclosed (c := '}') rfl
    cases hblock.symm.trans hsome
    rw [List.cons_append, hline]
    exact ⟨rfl, _, hmore⟩
  | case7 s condition block rest' hc after he hlt hif' hbrace =>
    cases hr
    obtain ⟨hafter, hread⟩ := h.read_else hb hif hc he
    rw [hread, if_neg hif', if_neg hbrace]
    exact ⟨rfl, hafter⟩

/-- An expression is cut off in the same way before the line break. -/
theorem Remains.headExpression (h : Remains b before s) (hb : Starts b) (hne : s ≠ [])
    (hsep : ∀ m ∈ (mark s).head?, m.isSeparator = false) :
    headExpression (s ++ '\n' :: b) = ((headExpression s).1, (headExpression s).2 ++ '\n' :: b) ∧
      ∃ between, Remains b between (headExpression s).2 := by
  have hlength : expressionLength 0 (mark (s ++ '\n' :: b)) = expressionLength 0 (mark s) := by
    rw [h.seam.mark_line, expressionLength_line h.nested hb.noChain]
  have hpos := expressionLength_mark_pos hne hsep
  have hle := expressionLength_mark_le s
  simp only [ViewHierarchy.headExpression, hlength, Nat.max_eq_left hpos,
    List.take_append_of_le_length hle, List.drop_append_of_le_length hle]
  have hdrop := nested_drop_expression h.nested
  exact ⟨trivial, _, h.drop (fun m hm => expressionLength_code hm) hdrop⟩

theorem IfsRead.tail {sibling : Sibling} (h : IfsRead s)
    (hs : siblings s = sibling :: siblings rest) : IfsRead rest := by
  intro text htext
  apply h text
  rw [hs]
  exact List.mem_cons_of_mem _ htext

/-- The siblings of two blocks with a line break between them. -/
theorem siblings_line {before : Char} {s : List Char} (h : Remains b before s) (hb : Starts b)
    (hifs : IfsRead s) : siblings (s ++ '\n' :: b) = siblings s ++ siblings b := by
  have hsep := dropSeparators_line h.seam
  cases hd : dropSeparators s with
  | nil =>
    rw [if_pos hd] at hsep
    rw [siblings_nil hd, List.nil_append]
    exact siblings_congr hsep
  | cons c t =>
    rw [hd, if_neg (List.cons_ne_nil c t)] at hsep
    obtain ⟨between, hremains⟩ := h.skip uniform_isSeparator fun m => isBracket_of_isSeparator
    have hhead := head_mark_skip uniform_isSeparator s
    rw [← dropSeparators_eq_skip, hd] at hremains hhead
    have hle : (c :: t).length ≤ s.length := hd ▸ dropSeparators_length_le s
    cases hc : headConditional? (c :: t) with
    | some found =>
      obtain ⟨conditional, rest⟩ := found
      have hs := siblings_conditional hd hc
      have hlt : rest.length < s.length := Nat.lt_of_lt_of_le (headConditional?_length hc).1 hle
      rw [headConditional?, Option.ite_none_right_eq_some] at hc
      obtain ⟨hread, after, hrest⟩ := hremains.read hb hc.1 hc.2 (hifs.tail hs)
      have hline : headConditional? (c :: t ++ '\n' :: b) =
          some (conditional, rest ++ '\n' :: b) := by
        rw [headConditional?, startsWithIf_line, if_pos hc.1, hread]
      rw [hs, siblings_conditional hsep hline, siblings_line hrest hb (hifs.tail hs)]
      rfl
    | none =>
      have hs := siblings_expression hd hc
      have hlt : (headExpression (c :: t)).2.length < s.length := by
        simp only [headExpression, List.length_drop, List.length_cons] at hle ⊢
        omega
      have hif : startsWithIf (c :: t) = false := by
        have hfirst := hifs (headExpression (c :: t)).1 (hs ▸ List.mem_cons_self)
        rw [← Bool.not_eq_true] at hfirst ⊢
        exact fun h => hfirst (startsWithIf_headExpression h)
      have hline : headConditional? (c :: t ++ '\n' :: b) = none := by
        rw [headConditional?, startsWithIf_line, hif]
        rfl
      obtain ⟨hexpression, after, hrest⟩ :=
        hremains.headExpression hb (List.cons_ne_nil c t) hhead
      rw [hs, siblings_expression hsep hline]
      change Sibling.expression (headExpression (c :: t ++ '\n' :: b)).1 ::
        siblings (headExpression (c :: t ++ '\n' :: b)).2 = _
      rw [hexpression]
      simp only [siblings_line hrest hb (hifs.tail hs), List.cons_append]
termination_by s.length

/-- If the first text leaves no literal and no bracket open, if all that looks like a conditional
in it is one, and if nothing in the second text goes on with it, then the views of a block made of
two texts are those of the first one and behind them those of the second one. -/
theorem parseBlock_line (st : Settings) (a b : List Char) (hclosed : Closes (a ++ ['\n']))
    (hnested : Nested (mark a))
    (hifs : ∀ text, .expression text ∈ siblings a → startsWithIf text = false)
    (hend : endsWithWord "else".toList (dropTrailingTrivia a) = false)
    (hdot : (dropTrivia b).head? ≠ some '.')
    (helse : startsWithWord "else".toList (dropTrivia b) = false) :
    parseBlock st (a ++ '\n' :: b) = parseBlock st a ++ parseBlock st b := by
  have hremains : Remains b ' ' a := ⟨hclosed.seam b, hnested, not_endsIn hend⟩
  have hchain : continuesChain (mark b) = false := by
    rw [continuesChain_mark, Option.any_eq_false]
    rintro c hc
    rw [beq_eq_false_iff_ne]
    rintro rfl
    exact hdot hc
  rw [parseBlock_eq, siblings_line hremains ⟨hchain, helse⟩ hifs, List.map_append, ← parseBlock_eq,
    ← parseBlock_eq]

/-- A conditional before the line break. -/
def conditionalText : List Char := "if c {A}".toList

theorem siblings_conditionalText :
    siblings conditionalText = [.conditional (.plain ['c'] ['A'])] := by
  have hc : headConditional? conditionalText = some (.plain ['c'] ['A'], []) :=
    read?_plain (by rfl) (by rfl)
  exact (siblings_conditional (by rfl) hc).trans (congrArg _ (siblings_nil rfl))

theorem parseBlock_conditionalText :
    parseBlock .default (conditionalText ++ '\n' :: ['B']) =
      parseBlock .default conditionalText ++ parseBlock .default ['B'] := by
  apply parseBlock_line
  · decide
  · have hname := tidy_of_ordinary (isOrdinary_of_isIdentifier (s := ['A']) (by decide))
    have htidy : Tidy conditionalText :=
      .cons rfl (.cons rfl (.cons rfl (.cons rfl (.cons rfl (.pair rfl hname)))))
    rw [htidy.plain.mark]
    exact htidy.nested
  · intro text h
    rw [siblings_conditionalText] at h
    cases h with
    | tail _ h => cases h
  · decide
  · decide
  · decide

end ViewHierarchy
