import ViewHierarchy.Proofs.Source.Trivia
import ViewHierarchy.Proofs.View.Writing

/-! A conditional that was written is read with the blocks it was written with. -/
namespace ViewHierarchy
open Text Source

variable {condition : List Char} {views others : List (List Char)} {rest : List Char}

theorem conditionLength?_append {s : List Char} (h : ∀ c ∈ s, isOrdinary c = true)
    (ms : List Marked) :
    conditionLength? 0 (s.map (·, .code) ++ ms) = (conditionLength? 0 ms).map (· + s.length) := by
  induction s with
  | nil => simp
  | cons c s ih =>
    obtain ⟨hc, hs⟩ := List.forall_mem_cons.1 h
    obtain ⟨hopen, hclose, -⟩ := isOrdinary_iff.1 hc
    simp only [isOpening, isClosing, Bool.or_eq_false_iff, beq_eq_false_iff_ne] at hopen hclose
    rw [List.map_cons, List.cons_append, conditionLength?, if_neg (by simp [hopen]),
      if_neg (by simp [hclose]), if_neg (by simp [hopen]), ih hs, Option.map_map]
    rfl

/-- A condition ends before the brace of its block. -/
theorem conditionLength?_brace (block : List Char) :
    conditionLength? 0 (mark (' ' :: '{' :: block)) = some 1 := by
  rw [mark_cons (literal?_eq_none _ (by decide) (by decide)),
    mark_cons (literal?_eq_none _ (by decide) (by decide))]
  rfl

theorem isOrdinary_of_isName {s : List Char} (h : isName s = true) :
    ∀ c ∈ s, isOrdinary c = true :=
  isOrdinary_of_isIdentifier (isIdentifier_of_isName h)

/-- White space in front of a condition makes it longer by as much. -/
theorem conditionLength?_trimLeft {head after : List Char}
    (h : conditionLength? 0 (mark (head ++ '{' :: after)) = some head.length) :
    conditionLength? 0 (mark (trimLeft head ++ '{' :: after)) = some (trimLeft head).length := by
  obtain ⟨w, hhead, hw⟩ := exists_trimLeft head
  have hordinary : ∀ c ∈ w, isOrdinary c = true := fun c hc => isOrdinary_of_isBlank (hw c hc)
  have hlen : head.length = w.length + (trimLeft head).length := by
    rw [← List.length_append, ← hhead]
  rw [hlen] at h
  generalize trimLeft head = condition at *
  subst hhead
  rw [List.append_assoc, (tidy_of_ordinary hordinary).plain.mark_append,
    conditionLength?_append hordinary] at h
  obtain ⟨k, hk, hsum⟩ := Option.map_eq_some_iff.1 h
  rw [hk]
  congr 1
  omega

/-- A clause is read with the white space of its condition collapsed, if the condition ends before
its block and the block at its brace. -/
theorem clause?_of_length {block : List Char}
    (hlength : conditionLength? 0 (mark (condition ++ ' ' :: '{' :: (block ++ '}' :: rest))) =
      some (condition.length + 1))
    (hblock : enclosed? ('{' :: (block ++ '}' :: rest)) = some (block, rest)) :
    clause? (' ' :: (condition ++ ' ' :: '{' :: (block ++ '}' :: rest))) =
      some (⟨collapse condition, block⟩, rest) := by
  generalize block ++ '}' :: rest = after at hlength hblock ⊢
  have htext : condition ++ ' ' :: '{' :: after = (condition ++ [' ']) ++ '{' :: after := by simp
  have hlen : (condition ++ [' ']).length = condition.length + 1 := List.length_append
  have hcollapse : collapse (condition ++ [' ']) = collapse condition :=
    collapse_append_blank (List.forall_mem_singleton.2 rfl) condition
  rw [← hlen, htext] at hlength
  rw [htext]
  generalize condition ++ [' '] = head at hlength hcollapse
  have htrim : trimLeft (' ' :: (head ++ '{' :: after)) = trimLeft head ++ '{' :: after := by
    rw [trimLeft_cons (by decide), trimLeft_append_kept (by decide)]
  simp only [clause?, htrim, conditionLength?_trimLeft hlength, Option.bind_eq_bind,
    Option.bind_some, List.drop_left, List.take_left, hblock, collapse_trimLeft, hcollapse]
  rfl

theorem clause?_write (hc : isName condition = true) (hviews : ∀ view ∈ views, Tidy view)
    (rest : List Char) :
    clause? (' ' :: (condition ++ ' ' :: (writeBlock views ++ rest))) =
      some (⟨condition, blockText views⟩, rest) := by
  have htext : writeBlock views ++ rest = '{' :: (blockText views ++ '}' :: rest) := by
    rw [writeBlock, List.cons_append, List.append_assoc, List.singleton_append]
  have hordinary := isOrdinary_of_isName hc
  have hlength : conditionLength? 0 (mark (condition ++
      ' ' :: '{' :: (blockText views ++ '}' :: rest))) = some (condition.length + 1) := by
    rw [(tidy_of_ordinary hordinary).plain.mark_append, conditionLength?_append hordinary,
      conditionLength?_brace, Option.map_some, Nat.add_comm]
  have hclause := clause?_of_length hlength ((tidy_blockText hviews).enclosed?_curly rest)
  rwa [collapse_name hc, ← htext] at hclause

theorem afterElse?_of_ends (h : Ends rest) : afterElse? rest = none := by
  cases h with
  | text => rfl
  | block => rfl
  | @next w t hw helse _ ht =>
    obtain ⟨⟨c, w, rfl, hc⟩, -⟩ := isIdentifier_iff.1 hw
    have hrest := isAsciiRest_of_start hc
    have hdrop : dropTrivia ('\n' :: (c :: w ++ t)) = c :: w ++ t := by
      rw [dropTrivia_cons (by decide)]
      exact dropTrivia_of_code (literal?_of_isAsciiRest hrest _) (isBlank_of_isAsciiRest hrest)
    have hword : startsWithWord ['e', 'l', 's', 'e'] (c :: w ++ t) = false :=
      startsWithWord_eq_false (isWord_of_isIdentifier (by decide)) (isWord_of_isIdentifier hw) ht
        helse.symm
    simp only [afterElse?, hdrop, hword]
    rfl

/-- What stands behind the word else is the next conditional or block. -/
theorem afterElse?_else {c : Char} (hl : ∀ s, literal? (c :: s) = none) (hc : isBlank c = false)
    (s : List Char) : afterElse? ([' ', 'e', 'l', 's', 'e', ' '] ++ c :: s) = some (c :: s) := by
  have hdrop : dropTrivia ([' ', 'e', 'l', 's', 'e', ' '] ++ c :: s) =
      ['e', 'l', 's', 'e'] ++ ' ' :: c :: s := by
    rw [List.cons_append, dropTrivia_cons (by decide)]
    exact dropTrivia_of_code (literal?_eq_none _ (by decide) (by decide)) (by decide)
  have hword : startsWithWord ['e', 'l', 's', 'e'] (['e', 'l', 's', 'e'] ++ ' ' :: c :: s) = true :=
    startsWithWord_self (isWord_of_isIdentifier (by decide)) (stops_cons (by decide) _)
  have hafter : dropTrivia (' ' :: c :: s) = c :: s := by
    rw [dropTrivia_cons (by decide), dropTrivia_of_code (hl s) hc]
  rw [afterElse?, hdrop, if_pos hword]
  exact congrArg some hafter

theorem afterElse?_write (views : List (List Char)) (rest : List Char) :
    afterElse? (' ' :: 'e' :: 'l' :: 's' :: 'e' :: ' ' :: (writeBlock views ++ rest)) =
      some (writeBlock views ++ rest) := by
  rw [writeBlock, List.cons_append]
  exact afterElse?_else (literal?_eq_none · (by decide) (by decide)) (by decide) _

theorem read?_plain {s block : List Char}
    (hc : clause? (s.drop 2) = some (⟨condition, block⟩, rest)) (he : afterElse? rest = none) :
    Conditional.read? s = some (.plain condition block, rest) := by
  rw [Conditional.read?]
  split
  · next hn => cases hc.symm.trans hn
  · next hs =>
    cases hc.symm.trans hs
    split
    · rfl
    · next hn => cases he.symm.trans hn

theorem read?_else {s block after : List Char}
    (hc : clause? (s.drop 2) = some (⟨condition, block⟩, rest))
    (he : afterElse? rest = some after) :
    Conditional.read? s =
      if startsWithIf after then
        match Conditional.read? after with
        | none => some (.plain condition block, after)
        | some (next, rest) => some (.chain condition block next, rest)
      else if after.head? = some '{' then
        match enclosed? after with
        | none => some (.unfinished condition block, [])
        | some (otherwise, rest) => some (.alternative condition block otherwise, rest)
      else some (.plain condition block, after) := by
  rw [Conditional.read?]
  split
  · next hn => cases hc.symm.trans hn
  · next hs =>
    cases hc.symm.trans hs
    split
    · next hn => cases he.symm.trans hn
    · next hn =>
      cases he.symm.trans hn
      rfl

theorem Conditional.read?_eq_none_iff {s : List Char} :
    read? s = none ↔ clause? (s.drop 2) = none := by
  constructor
  · intro h
    cases hc : clause? (s.drop 2) with
    | none => rfl
    | some found =>
      obtain ⟨⟨condition, block⟩, rest⟩ := found
      cases he : afterElse? rest with
      | none => cases (read?_plain hc he).symm.trans h
      | some after =>
        rw [read?_else hc he] at h
        split at h
        · split at h <;> cases h
        · split at h
          · split at h <;> cases h
          · cases h
  · intro h
    rw [read?]
    split
    · rfl
    · next hs => cases h.symm.trans hs

theorem read?_alternative {s block after otherwise rest' : List Char}
    (hc : clause? (s.drop 2) = some (⟨condition, block⟩, rest)) (he : afterElse? rest = some after)
    (hif : startsWithIf after = false) (hb : after.head? = some '{')
    (ho : enclosed? after = some (otherwise, rest')) :
    Conditional.read? s = some (.alternative condition block otherwise, rest') := by
  rw [read?_else hc he, if_neg (by simp [hif]), if_pos hb, ho]

theorem read?_chain {s block after rest' : List Char} {next : Conditional}
    (hc : clause? (s.drop 2) = some (⟨condition, block⟩, rest)) (he : afterElse? rest = some after)
    (hif : startsWithIf after = true) (hn : Conditional.read? after = some (next, rest')) :
    Conditional.read? s = some (.chain condition block next, rest') := by
  rw [read?_else hc he, if_pos hif, hn]

theorem startsWithIf_write (s : List Char) : startsWithIf ('i' :: 'f' :: ' ' :: s) = true :=
  startsWithWord_self (w := ['i', 'f']) (isWord_of_isIdentifier (by decide))
    (stops_cons (by decide) s)

/-- Reading finds the block of a conditional where it was written. -/
theorem headConditional?_plain (hc : isName condition = true)
    (hviews : ∀ view ∈ views, Tidy view) (hrest : Ends rest) :
    headConditional? ('i' :: 'f' :: ' ' :: (condition ++ ' ' :: (writeBlock views ++ rest))) =
      some (.plain condition (blockText views), rest) := by
  rw [headConditional?, if_pos (startsWithIf_write _)]
  apply read?_plain
  · exact clause?_write hc hviews rest
  · exact afterElse?_of_ends hrest

theorem headConditional?_alternative (hc : isName condition = true)
    (hviews : ∀ view ∈ views, Tidy view) (hothers : ∀ view ∈ others, Tidy view)
    (rest : List Char) :
    headConditional? ('i' :: 'f' :: ' ' :: (condition ++ ' ' :: (writeBlock views ++
        ' ' :: 'e' :: 'l' :: 's' :: 'e' :: ' ' :: (writeBlock others ++ rest)))) =
      some (.alternative condition (blockText views) (blockText others), rest) := by
  rw [headConditional?, if_pos (startsWithIf_write _)]
  apply read?_alternative
  · exact clause?_write hc hviews _
  · exact afterElse?_write others rest
  · rfl
  · rfl
  · rw [writeBlock, List.cons_append, List.append_assoc, List.singleton_append]
    exact (tidy_blockText hothers).enclosed?_curly rest

end ViewHierarchy
