import ViewHierarchy.Proofs.Source.Closing
import ViewHierarchy.Proofs.Text.Spacing
import ViewHierarchy.Proofs.View.Covering

/-! Expressions joined by one character. Line breaks, semicolons and commas are all passed over in
front of an expression, but only the first two of them end one: expressions with commas between
them are read as one expression. -/
namespace ViewHierarchy
open Text Source

variable {e t : List Char} {es : List (List Char)} {ms ns : List Marked} {sep : Char}

theorem continuesChain_append (h : continuesChain ms = true) (ns : List Marked) :
    continuesChain (ms ++ ns) = true := by
  induction ms with
  | nil => cases h
  | cons m ms ih =>
    rw [continuesChain_cons] at h
    rw [List.cons_append, continuesChain_cons]
    split at h
    · next hm => rw [if_pos hm, ih h]
    · next hm => rw [if_neg hm, h]

/-- An expression that takes up all of a nested text goes on into what comes behind it. -/
theorem expressionLength_behind (h : Nested ms) (hms : expressionLength 0 ms = ms.length)
    (ns : List Marked) : expressionLength 0 (ms ++ ns) = expressionLength 0 ns + ms.length := by
  induction h with
  | nil => rfl
  | @skip m ms hm _ ih =>
    rw [expressionLength_skip hm, List.length_cons] at hms
    split at hms
    · cases hms
    · next hgo =>
      rw [List.cons_append, expressionLength_skip hm, ih (Nat.succ.inj hms), if_neg,
        List.length_cons, Nat.add_assoc]
      rintro (hsemi | ⟨hline, hstop⟩)
      · exact hgo (.inl hsemi)
      · refine hgo (.inr ⟨hline, ?_⟩)
        rw [← Bool.not_eq_true] at hstop ⊢
        exact fun hchain => hstop (continuesChain_append hchain ns)
  | @pair o c inner after hc hi _ _ iha =>
    rw [expressionLength_pair hc hi] at hms
    rw [List.cons_append, List.append_assoc, List.cons_append, expressionLength_pair hc hi, iha]
    · simp only [List.length_cons, List.length_append, List.length_nil]
      omega
    · simp only [List.length_cons, List.length_append, List.length_nil] at hms
      omega

/-- A text that is one expression on its own. It leaves no bracket and no literal open, does not
start like a conditional, and does not go on with the chain of a text before it. -/
structure IsSingle (e : List Char) : Prop where
  alone : siblings e = [.expression e]
  noDot : e.head? ≠ some '.'
  noIf : startsWithIf e = false
  nested : Nested (mark e)
  closes : Closes e

namespace IsSingle

theorem ne_nil (h : IsSingle e) : e ≠ [] := by
  rintro rfl
  cases (siblings_nil rfl).symm.trans h.alone

/-- Nothing stands before the expression or behind it. -/
theorem whole (h : IsSingle e) :
    dropSeparators e = e ∧ trim e = e ∧ expressionLength 0 (mark e) = e.length := by
  cases hd : dropSeparators e with
  | nil => cases (siblings_nil hd).symm.trans h.alone
  | cons c s =>
    cases hc : headConditional? (c :: s) with
    | some found => cases (siblings_conditional hd hc).symm.trans h.alone
    | none =>
      have hhead := (siblings_expression hd hc).symm.trans h.alone
      simp only [List.cons.injEq, Sibling.expression.injEq] at hhead
      obtain ⟨p, hs, htext, -, hlength⟩ := headExpression_split (hd ▸ head_mark_dropSeparators e)
      rw [hhead.1] at htext
      -- The text is no longer than what is left of it without its ends.
      have hle := dropSeparators_length_le e
      have hp := trimRight_length_le p
      have hlengths := congrArg List.length hs
      rw [hd, htext] at hle
      simp only [List.length_append, List.length_cons] at hle hlengths
      have htrim : trimRight p = p := (trimRight_isPrefix p).eq_of_length (by omega)
      have hrest : (headExpression (c :: s)).2 = [] := List.length_eq_zero_iff.1 (by omega)
      rw [htrim] at htext
      rw [hrest, List.append_nil, ← htext] at hs
      rw [hs, ← htext] at hlength
      refine ⟨hs, ?_, hlength⟩
      rw [← hhead.1]
      exact trim_idem _

theorem seam (h : IsSingle e) (hsep : isApart sep = true) (t : List Char) : Seam (sep :: t) e :=
  h.closes.seam_apart hsep t

theorem dropSeparators_append (h : IsSingle e) (hseam : Seam t e) :
    dropSeparators (e ++ t) = e ++ t := by
  rw [dropSeparators_eq_skip, skip_append hseam, ← dropSeparators_eq_skip, h.whole.1,
    if_neg h.ne_nil]

theorem headConditional?_append (h : IsSingle e) (ht : Stops isWord t) :
    headConditional? (e ++ t) = none := by
  rw [headConditional?, startsWithIf, startsWithWord_append (isWord_of_isIdentifier (by decide)) ht]
  exact if_neg (by rw [← startsWithIf, h.noIf]; exact Bool.false_ne_true)

theorem expressionLength_append (h : IsSingle e) (hseam : Seam t e) :
    expressionLength 0 (mark (e ++ t)) = expressionLength 0 (mark t) + e.length := by
  have hwhole := h.whole.2.2
  rw [← length_mark e] at hwhole ⊢
  rw [hseam.mark_append, expressionLength_behind h.nested hwhole]

theorem head_mark (h : IsSingle e) : ∀ m ∈ (mark e).head?, m.isSeparator = false := by
  have hhead := head_mark_dropSeparators e
  rwa [h.whole.1] at hhead

/-- No chain of a text before it goes on with the expression. -/
theorem noChain (h : IsSingle e) (hseam : Seam t e) : continuesChain (mark (e ++ t)) = false := by
  have hhead := h.head_mark
  have hdot : ∀ m ∈ (mark e).head?, m.1 ≠ '.' := by
    intro m hm hc
    apply h.noDot
    rw [← map_fst_mark e, List.head?_map, Option.mem_def.1 hm, Option.map_some, hc]
  rw [hseam.mark_append]
  cases hm : mark e with
  | nil => exact absurd (by rw [← map_fst_mark e, hm, List.map_nil]) h.ne_nil
  | cons m ms =>
    rw [hm] at hhead hdot
    rw [List.cons_append, continuesChain_cons, if_neg, beq_false_of_ne (hdot m rfl)]
    intro htrivia
    exact Bool.false_ne_true ((hhead m rfl).symm.trans (isSeparator_of_isTrivia htrivia))

/-- A semicolon or a line break ends the expression. -/
theorem siblings_append (h : IsSingle e)
    (hsep : sep = ';' ∨ sep = '\n' ∧ continuesChain (mark t) = false) :
    siblings (e ++ sep :: t) = .expression e :: siblings t := by
  have hapart : isApart sep = true := by
    rcases hsep with rfl | ⟨rfl, -⟩ <;> rfl
  have hword : isWord sep = false := by
    rcases hsep with rfl | ⟨rfl, -⟩ <;> decide
  have hskip : Marked.isSeparator (sep, .code) = true := by
    rcases hsep with rfl | ⟨rfl, -⟩ <;> decide
  have hl : literal? (sep :: t) = none := by
    obtain ⟨hquote, hslash, -⟩ := isApart_iff.1 hapart
    exact literal?_eq_none t hquote hslash
  have hseam := h.seam hapart t
  have hstop : expressionLength 0 (mark (sep :: t)) = 0 := by
    rw [mark_cons hl, expressionLength_skip (isBracket_of_isSeparator hskip), if_pos]
    rcases hsep with rfl | ⟨rfl, hchain⟩
    · exact .inl rfl
    · exact .inr ⟨rfl, hchain⟩
  have hhead : headExpression (e ++ sep :: t) = (e, sep :: t) := by
    have hpos : 1 ≤ e.length := List.length_pos_iff.2 h.ne_nil
    rw [headExpression, h.expressionLength_append hseam, hstop, Nat.zero_add, Nat.max_eq_left hpos,
      List.take_left, List.drop_left, h.whole.2.1]
  have hrest : siblings (sep :: t) = siblings t := by
    apply siblings_congr
    rw [dropSeparators_eq_skip, skip_code hl, if_pos hskip, dropSeparators_eq_skip]
  have hdrop := h.dropSeparators_append hseam
  have hnone := h.headConditional?_append (stops_cons hword t)
  obtain ⟨c, s, hcons⟩ :=
    List.exists_cons_of_ne_nil (List.append_ne_nil_of_left_ne_nil h.ne_nil (sep :: t))
  rw [hcons] at hdrop hnone hhead ⊢
  rw [siblings_expression hdrop hnone, hhead, hrest]

end IsSingle

/-- The characters that are passed over in front of an expression, but for white space. -/
def separators : List Char := ['\n', ';', ',']

theorem comma_mem_separators : ',' ∈ separators := by decide

/-- What stands behind the first of several expressions. -/
theorem IsSingle.exists_joinWith (h : IsSingle e) (hsep : sep ∈ separators)
    (es : List (List Char)) :
    ∃ t, joinWith [sep] (e :: es) = e ++ t ∧ Seam t e ∧ Stops isWord t := by
  have hclass : isApart sep = true ∧ isWord sep = false := by
    simp only [separators, List.mem_cons, List.not_mem_nil, or_false] at hsep
    rcases hsep with rfl | rfl | rfl <;> decide
  cases es with
  | nil => exact ⟨[], (List.append_nil e).symm, seam_nil e, stops_nil⟩
  | cons e' es =>
    obtain ⟨hapart, hword⟩ := hclass
    refine ⟨sep :: joinWith [sep] (e' :: es), ?_, h.seam hapart _, stops_cons hword _⟩
    rw [joinWith, List.append_assoc, List.singleton_append]

/-- Semicolons and line breaks separate expressions. -/
theorem siblings_joinWith (hsep : sep = ';' ∨ sep = '\n') (h : ∀ e ∈ es, IsSingle e) :
    siblings (joinWith [sep] es) = es.map .expression := by
  have hmem : sep ∈ separators := by
    rcases hsep with rfl | rfl <;> decide
  fun_induction joinWith [sep] es with
  | case1 => exact siblings_nil rfl
  | case2 e => exact (h e List.mem_cons_self).alone
  | case3 e e' es ih =>
    obtain ⟨he, hes⟩ := List.forall_mem_cons.1 h
    have hchain : continuesChain (mark (joinWith [sep] (e' :: es))) = false := by
      have he' := hes e' List.mem_cons_self
      obtain ⟨t, ht, hseam, -⟩ := he'.exists_joinWith hmem es
      rw [ht]
      exact he'.noChain hseam
    rw [List.append_assoc, List.singleton_append,
      he.siblings_append (hsep.imp_right fun hline => ⟨hline, hchain⟩), ih hes]
    rfl

/-- An expression goes on over all commas and the expressions behind them. -/
theorem expressionLength_joinWith (h : ∀ e ∈ es, IsSingle e) :
    expressionLength 0 (mark (joinWith [','] es)) = (joinWith [','] es).length := by
  fun_induction joinWith [','] es with
  | case1 => rfl
  | case2 e => exact (h e List.mem_cons_self).whole.2.2
  | case3 e e' es ih =>
    obtain ⟨he, hes⟩ := List.forall_mem_cons.1 h
    rw [List.append_assoc, List.singleton_append, he.expressionLength_append (he.seam rfl _),
      mark_cons (literal?_eq_none _ (by decide) (by decide)), expressionLength_skip rfl,
      if_neg (by simp), ih hes, List.length_append, List.length_cons, Nat.add_comm]

theorem endsKept_joinWith (h : ∀ e ∈ es, IsSingle e) : EndsKept (joinWith [','] es) := by
  have hend : ∀ {e}, IsSingle e → EndsKept e := by
    intro e he
    rw [← he.whole.2.1]
    exact endsKept_trim e
  fun_induction joinWith [','] es with
  | case1 => exact stops_nil
  | case2 e => exact hend (h e List.mem_cons_self)
  | case3 e e' es ih =>
    obtain ⟨he, hes⟩ := List.forall_mem_cons.1 h
    apply (ih hes).append
    obtain ⟨t, ht, -, -⟩ := (hes e' List.mem_cons_self).exists_joinWith comma_mem_separators es
    rw [ht]
    exact List.append_ne_nil_of_left_ne_nil (hes e' List.mem_cons_self).ne_nil t

/-- Commas do not separate expressions. -/
theorem siblings_joinWith_comma (hne : es ≠ []) (h : ∀ e ∈ es, IsSingle e) :
    siblings (joinWith [','] es) = [.expression (joinWith [','] es)] := by
  have hlength := expressionLength_joinWith h
  have hend := endsKept_joinWith h
  obtain ⟨e, es, rfl⟩ := List.exists_cons_of_ne_nil hne
  have he := h e List.mem_cons_self
  obtain ⟨t, ht, hseam, hstops⟩ := he.exists_joinWith comma_mem_separators es
  rw [ht] at hlength hend ⊢
  have hdrop := he.dropSeparators_append hseam
  have hhead := head_mark_dropSeparators (e ++ t)
  have hnone := he.headConditional?_append hstops
  obtain ⟨c, s, hcons⟩ :=
    List.exists_cons_of_ne_nil (List.append_ne_nil_of_left_ne_nil he.ne_nil t)
  rw [hdrop] at hhead
  rw [hcons] at hlength hend hnone hhead ⊢
  refine siblings_whole hhead hnone hlength ?_
  exact trim_of_stops (stops_cons (isBlank_of_head hhead) s) hend

/-- Expressions with line breaks or semicolons between them are read one by one. With commas
between them they are read as one expression, so that none but a single one is read as it should. -/
theorem parseBlock_joinWith (st : Settings) (es : List (List Char)) (h : ∀ e ∈ es, IsSingle e) :
    parseBlock st (joinWith ['\n'] es) = es.map (parseExpression st) ∧
      parseBlock st (joinWith [';'] es) = es.map (parseExpression st) ∧
      (es ≠ [] → parseBlock st (joinWith [','] es) = [parseExpression st (joinWith [','] es)]) ∧
      (parseBlock st (joinWith [','] es) = es.map (parseExpression st) ↔ es.length ≤ 1) := by
  have hcomma : es ≠ [] →
      parseBlock st (joinWith [','] es) = [parseExpression st (joinWith [','] es)] := by
    intro hne
    rw [parseBlock_eq, siblings_joinWith_comma hne h]
    rfl
  refine ⟨?_, ?_, hcomma, ?_⟩
  · rw [parseBlock_eq, siblings_joinWith (.inr rfl) h, List.map_map]
    rfl
  · rw [parseBlock_eq, siblings_joinWith (.inl rfl) h, List.map_map]
    rfl
  · match es, hcomma with
    | [], _ => exact iff_of_true (parseBlock_nil rfl) (Nat.zero_le 1)
    | [e], hcomma => exact iff_of_true (hcomma (List.cons_ne_nil e [])) (Nat.le_refl 1)
    | e :: e' :: es, hcomma => simp [hcomma]

/-- An expression with a semicolon in a string. -/
def quotedText : List Char := "A(\"b;c\")".toList

/-- An expression with separators inside its braces, whose chain goes on behind a line break. -/
def chainedText : List Char := "D \x7bE,F\nG;H\x7d\n.i()".toList

theorem isSingle_quotedText : IsSingle quotedText where
  alone := siblings_whole (by decide) (by rfl) (by rfl) (by rfl)
  noDot := by decide
  noIf := by decide
  nested := by
    have hquoted : Nested ("\"b;c\"".toList.map (·, .string)) := nested_of_forall (by decide)
    exact .skip rfl (.pair (o := '(') rfl hquoted .nil)
  closes := by decide

theorem isSingle_chainedText : IsSingle chainedText where
  alone := siblings_whole (by decide) (by rfl) (by rfl) (by rfl)
  noDot := by decide
  noIf := by decide
  nested := by
    have hblock : Tidy "E,F\nG;H".toList := tidy_of_ordinary (List.all_eq_true.1 (by decide))
    have htidy : Tidy chainedText :=
      .cons rfl (.cons rfl (.append (.pair (o := '{') rfl hblock)
        (.cons rfl (.cons rfl (.cons rfl (.pair (o := '(') rfl .nil))))))
    rw [htidy.plain.mark]
    exact htidy.nested
  closes := by decide

theorem parseBlock_joinWith_chainedText :
    (∀ e ∈ [quotedText, chainedText], IsSingle e) ∧
      parseBlock .default (joinWith ['\n'] [quotedText, chainedText]) =
        [parseExpression .default quotedText, parseExpression .default chainedText] ∧
      parseBlock .default (joinWith [';'] [quotedText, chainedText]) =
        [parseExpression .default quotedText, parseExpression .default chainedText] := by
  have hsingle : ∀ e ∈ [quotedText, chainedText], IsSingle e := by
    intro e he
    simp only [List.mem_cons, List.not_mem_nil, or_false] at he
    rcases he with rfl | rfl
    · exact isSingle_quotedText
    · exact isSingle_chainedText
  obtain ⟨hline, hsemi, -⟩ := parseBlock_joinWith .default [quotedText, chainedText] hsingle
  exact ⟨hsingle, hline, hsemi⟩

/-- Of two names with a comma between them one view is made. -/
theorem parseBlock_comma_ne : IsSingle ['A'] ∧ IsSingle ['B'] ∧
    parseBlock .default ['A', ',', 'B'] ≠
      [parseExpression .default ['A'], parseExpression .default ['B']] := by
  have hname : ∀ c, c = 'A' ∨ c = 'B' → IsSingle [c] := by
    rintro c (rfl | rfl)
    · exact ⟨siblings_whole (by decide) (by rfl) (by rfl) (by rfl), by decide, by decide,
        .skip rfl .nil, by decide⟩
    · exact ⟨siblings_whole (by decide) (by rfl) (by rfl) (by rfl), by decide, by decide,
        .skip rfl .nil, by decide⟩
  refine ⟨hname 'A' (.inl rfl), hname 'B' (.inr rfl), ?_⟩
  rw [parseBlock_eq, siblings_whole (by decide) (by rfl) (by rfl) (by rfl)]
  intro h
  cases congrArg List.length h

end ViewHierarchy
