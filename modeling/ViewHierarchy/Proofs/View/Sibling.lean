import ViewHierarchy.Proofs.Source.Trivia
import ViewHierarchy.Proofs.View.Writing

/-! The siblings of a block, one step at a time. -/
namespace ViewHierarchy
open Text Source

theorem siblings_nil {body : List Char} (h : dropSeparators body = []) : siblings body = [] := by
  rw [siblings]
  split
  · rfl
  · next hs => cases h.symm.trans hs

theorem siblings_conditional {body s rest : List Char} {c : Char} {conditional : Conditional}
    (h : dropSeparators body = c :: s) (hc : headConditional? (c :: s) = some (conditional, rest)) :
    siblings body = .conditional conditional :: siblings rest := by
  rw [siblings]
  split
  · next hs => cases h.symm.trans hs
  · next c' s' hs =>
    cases h.symm.trans hs
    dsimp only
    split
    · next hd =>
      cases hc.symm.trans hd
      rfl
    · next hd => cases hc.symm.trans hd

theorem siblings_expression {body s : List Char} {c : Char} (h : dropSeparators body = c :: s)
    (hc : headConditional? (c :: s) = none) :
    siblings body =
      .expression (headExpression (c :: s)).1 :: siblings (headExpression (c :: s)).2 := by
  rw [siblings]
  split
  · next hs => cases h.symm.trans hs
  · next c' s' hs =>
    cases h.symm.trans hs
    dsimp only
    split
    · next hd => cases hc.symm.trans hd
    · rfl

theorem parseBlock_nil {st : Settings} {body : List Char} (h : dropSeparators body = []) :
    parseBlock st body = [] := by
  rw [parseBlock_eq, siblings_nil h, List.map_nil]

/-- What separates the siblings does not matter. -/
theorem siblings_congr {body other : List Char} (h : dropSeparators body = dropSeparators other) :
    siblings body = siblings other := by
  cases hs : dropSeparators other with
  | nil => rw [siblings_nil hs, siblings_nil (h.trans hs)]
  | cons d s =>
    cases hc : headConditional? (d :: s) with
    | none => rw [siblings_expression hs hc, siblings_expression (h.trans hs) hc]
    | some p => rw [siblings_conditional hs hc, siblings_conditional (h.trans hs) hc]

theorem siblings_cons {c : Char} (h : isBlank c = true) (body : List Char) :
    siblings (c :: body) = siblings body :=
  siblings_congr (dropSeparators_cons h body)

/-- Inside a bracket an expression goes on whatever the nested text holds. -/
theorem expressionLength_append {ms : List Marked} (h : Nested ms) {depth : Int}
    (hd : 0 < depth) (rest : List Marked) :
    expressionLength depth (ms ++ rest) = expressionLength depth rest + ms.length := by
  induction h generalizing depth rest with
  | nil => rfl
  | @skip m ms hm _ ih =>
    obtain ⟨c, role⟩ := m
    have hstep : expressionLength depth ((c, role) :: (ms ++ rest)) =
        expressionLength depth (ms ++ rest) + 1 := by
      cases role with
      | code =>
        simp [Marked.isBracket] at hm
        rw [expressionLength, hm.1, hm.2, if_neg Bool.false_ne_true, if_neg Bool.false_ne_true,
          if_neg fun h => Int.not_le.2 hd h.1]
      | string => rfl
      | comment => rfl
    rw [List.cons_append, hstep, ih hd, List.length_cons, Nat.add_assoc]
  | @pair o c inner after hc _ _ ihi iha =>
    obtain ⟨hopen, hclose, -, hopen'⟩ := brackets_of_closing? hc
    rw [List.cons_append, List.append_assoc, List.cons_append, expressionLength, if_pos hopen,
      ihi (by omega), expressionLength, hopen', if_neg Bool.false_ne_true, if_pos hclose,
      Int.add_sub_cancel, iha hd]
    simp only [List.length_cons, List.length_append]
    omega

theorem expressionLength_skip {m : Marked} (hm : m.isBracket = false) (ms : List Marked) :
    expressionLength 0 (m :: ms) = if m = (';', .code) ∨ m = ('\n', .code) ∧
      continuesChain ms = false then 0 else expressionLength 0 ms + 1 := by
  obtain ⟨c, role⟩ := m
  cases role with
  | code =>
    simp only [Marked.isBracket, beq_self_eq_true, Bool.true_and, Bool.or_eq_false_iff] at hm
    simp [expressionLength, hm.1, hm.2]
  | string => simp [expressionLength]
  | comment => simp [expressionLength]

theorem expressionLength_pair {o c : Char} {inner : List Marked} (hc : closing? o = some c)
    (h : Nested inner) (rest : List Marked) :
    expressionLength 0 ((o, .code) :: (inner ++ (c, .code) :: rest)) =
      expressionLength 0 rest + ((o, Role.code) :: (inner ++ [(c, .code)])).length := by
  obtain ⟨hopen, hclose, -, hopen'⟩ := brackets_of_closing? hc
  rw [expressionLength, if_pos hopen, expressionLength_append h (by decide), expressionLength,
    hopen', if_neg Bool.false_ne_true, if_pos hclose, Int.add_sub_cancel]
  simp
  omega

/-- The text is part of one expression, whatever follows it. -/
def Runs (s : List Char) : Prop :=
  ∀ rest, expressionLength 0 (mark (s ++ rest)) = expressionLength 0 (mark rest) + s.length

theorem runs_nil : Runs [] := fun _ => rfl

theorem Runs.append {s t : List Char} (hs : Runs s) (ht : Runs t) : Runs (s ++ t) := by
  intro rest
  rw [List.append_assoc, hs, ht, List.length_append, Nat.add_assoc, Nat.add_comm t.length]

theorem Runs.cons {c : Char} {s : List Char} (hc : isOrdinary c = true) (hsemi : c ≠ ';')
    (hline : c ≠ '\n') (hs : Runs s) : Runs (c :: s) := by
  intro rest
  obtain ⟨-, -, hquote, hslash⟩ := isOrdinary_iff.1 hc
  rw [List.cons_append, mark_cons (literal?_eq_none _ hquote hslash),
    expressionLength_skip (isBracket_of_isOrdinary hc), if_neg (by simp [hsemi, hline]), hs,
    List.length_cons, Nat.add_assoc]

theorem runs_identifier {s : List Char} (h : isName s = true) : Runs s := by
  have hall := isAsciiRest_of_isName h
  clear h
  induction s with
  | nil => exact runs_nil
  | cons c s ih =>
    obtain ⟨hc, hs⟩ := List.forall_mem_cons.1 hall
    exact .cons (isOrdinary_of_isAsciiRest hc) (ne_of_class hc (by decide))
      (ne_of_class hc (by decide)) (ih hs)

theorem runs_pair {o c : Char} {s : List Char} (hc : closing? o = some c) (hs : Tidy s) :
    Runs (o :: (s ++ [c])) := by
  intro rest
  have hplain := plain_of_closing? hc c (List.mem_cons_of_mem _ List.mem_cons_self)
  rw [List.cons_append, List.append_assoc, List.singleton_append,
    mark_cons (literal?_of_closing? hc _), hs.plain.mark_append,
    mark_cons (literal?_eq_none _ hplain.1 hplain.2), expressionLength_pair hc hs.nested]
  simp

/-- A line break goes on with the expression if a dot comes next. -/
theorem Runs.dot {s : List Char} (hs : Runs s) : Runs ('\n' :: '.' :: s) := by
  intro rest
  have hdot : Runs ('.' :: s) := hs.cons (by decide) (by decide) (by decide)
  have hchain : continuesChain (mark ('.' :: s ++ rest)) = true := by
    rw [List.cons_append, mark_cons (literal?_eq_none _ (by decide) (by decide))]
    rfl
  rw [List.cons_append, mark_cons (literal?_eq_none _ (by decide) (by decide)), expressionLength,
    if_neg (by decide), if_neg (by decide), hchain, if_neg (by simp), hdot]
  rfl

theorem IsCall.runs {m : List Char} (h : IsCall m) : Runs m := by
  cases h with
  | plain hm => exact runs_identifier hm
  | applied hm hv => exact (runs_identifier hm).append (runs_pair rfl (tidy_of_isName hv))

theorem runs_writeChain {ms : List (List Char)} (h : ∀ m ∈ ms, IsCall m) :
    Runs (writeChain ms) := by
  induction ms with
  | nil => exact runs_nil
  | cons m ms ih =>
    obtain ⟨hm, hms⟩ := List.forall_mem_cons.1 h
    exact (hm.runs.append (ih hms)).dot

/-- An element that was written is one expression. -/
theorem runs_write {name : List Char} {arguments views ms : List (List Char)}
    (hname : isName name = true) (hargs : ∀ a ∈ arguments, Tidy a)
    (hviews : ∀ view ∈ views, Tidy view) (hms : ∀ m ∈ ms, IsCall m) :
    Runs (name ++ (writeArguments arguments ++ (writeTrailing views ++ writeChain ms))) := by
  apply (runs_identifier hname).append
  apply Runs.append
  · cases arguments with
    | nil => exact runs_nil
    | cons a rest => exact runs_pair rfl (tidy_arguments hargs)
  · apply Runs.append
    · cases views with
      | nil => exact runs_nil
      | cons view rest =>
        exact .cons rfl (by decide) (by decide) (runs_pair rfl (tidy_blockText hviews))
    · exact runs_writeChain hms

theorem expressionLength_of_ends {rest : List Char} (h : Ends rest) :
    expressionLength 0 (mark rest) = 0 := by
  cases h with
  | text => rfl
  | block => rfl
  | @next w t hw _ _ _ =>
    obtain ⟨⟨c, w, rfl, hc⟩, -⟩ := isIdentifier_iff.1 hw
    have hrest := isAsciiRest_of_start hc
    have hchain : continuesChain (mark (c :: w ++ t)) = false := by
      rw [List.cons_append, mark_cons (literal?_of_isAsciiRest hrest _), continuesChain,
        List.dropWhile_cons_of_neg (by simp [Marked.isTrivia, isBlank_of_isAsciiRest hrest])]
      simpa using ne_of_class hrest (by decide)
    rw [mark_cons (literal?_eq_none _ (by decide) (by decide)), expressionLength,
      if_neg (by decide), if_neg (by decide), if_pos ⟨Int.le_refl 0, .inr ⟨rfl, hchain⟩⟩]

/-- A text that is part of one expression ends it where the next view stands. -/
theorem siblings_runs {w t rest : List Char} (hw : isName w = true) (ht : Stops isWord (t ++ rest))
    (hruns : Runs (w ++ t)) (htrim : trim (w ++ t) = w ++ t) (hrest : Ends rest) :
    siblings (w ++ t ++ rest) = .expression (w ++ t) :: siblings rest := by
  have hif : headConditional? (w ++ t ++ rest) = none := by
    have hne : w ≠ ['i', 'f'] := ne_of_class hw (by decide)
    rw [headConditional?, startsWithIf, List.append_assoc, startsWithWord_eq_false
      (isWord_of_isIdentifier (by decide)) (isWord_of_isName hw) ht hne.symm]
    rfl
  have hhead : headExpression (w ++ t ++ rest) = (w ++ t, rest) := by
    have hlen : 1 ≤ (w ++ t).length := by
      rw [List.length_append]
      exact Nat.le_add_right_of_le (List.length_pos_iff.2 (ne_nil_of_isName hw))
    rw [headExpression, hruns, expressionLength_of_ends hrest, Nat.zero_add,
      Nat.max_eq_left hlen, List.take_left, List.drop_left, htrim]
  have hall := isAsciiRest_of_isName hw
  cases w with
  | nil => cases hw
  | cons c w =>
    have hdrop := dropSeparators_of_isAsciiRest (hall c List.mem_cons_self) (w ++ t ++ rest)
    have := siblings_expression hdrop hif
    rwa [show headExpression (c :: (w ++ t ++ rest)) = _ from hhead] at this

end ViewHierarchy
