import ViewHierarchy.Proofs.Source.Padding
import ViewHierarchy.Proofs.View.Covering
import ViewHierarchy.Proofs.View.Joining
import ViewHierarchy.Proofs.View.Trailing

/-! White space around a block. A literal that is open at the end of the block takes up the white
space behind it, but no reader finds anything in it: the siblings stay the same. -/
namespace ViewHierarchy
open Text Source

variable {s w rest after : List Char} {ms ns : List Marked}

/-- What is left of a text with white space behind it: the same, with the white space or, if it is
nothing, possibly without. -/
inductive Padded (w : List Char) : List Char → List Char → Prop
  | behind (s : List Char) : Padded w s (s ++ w)
  | nil : Padded w [] []

theorem conditionLength?_append_plain (hns : ∀ n ∈ ns, n.1 ≠ '{') (d : Int) (ms : List Marked) :
    conditionLength? d (ms ++ ns) = conditionLength? d ms := by
  fun_induction conditionLength? d ms with
  | case1 d =>
    rw [List.nil_append, ← Option.not_isSome_iff_eq_none]
    intro hsome
    obtain ⟨n, hn⟩ := Option.isSome_iff_exists.1 hsome
    exact hns _ (List.mem_of_getElem? (conditionLength?_code hn)) rfl
  | case2 d c rest hc ih => rw [List.cons_append, conditionLength?, if_pos hc, ih]
  | case3 d c rest hc hc' ih => rw [List.cons_append, conditionLength?, if_neg hc, if_pos hc', ih]
  | case4 d c rest hc hc' hend =>
    rw [List.cons_append, conditionLength?, if_neg hc, if_neg hc', if_pos hend]
  | case5 d c rest hc hc' hend ih =>
    rw [List.cons_append, conditionLength?, if_neg hc, if_neg hc', if_neg hend, ih]
  | case6 d m rest hm ih =>
    rw [List.cons_append, conditionLength?, ih]
    exact hm

section

variable (hw : ∀ c ∈ w, isBlank c = true)

include hw

theorem clause?_blank (s : List Char) :
    clause? (s ++ w) = (clause? s).map fun p => (p.1, p.2 ++ w) := by
  cases hs : trimLeft s with
  | nil => simp only [clause?, hs, trimLeft_append_nil hw hs]; rfl
  | cons c t =>
    have hs' : trimLeft (s ++ w) = c :: t ++ w := trimLeft_append_cons hs w
    obtain ⟨ms, hms, -, hblank⟩ := exists_mark_blank hw (c :: t)
    have hplain : ∀ m ∈ ms, m.1 ≠ '{' := by
      intro m hm hbrace
      exact absurd (hblank m hm) (by rw [hbrace]; decide)
    have hlength := conditionLength?_append_plain hplain 0 (mark (c :: t))
    rw [← hms] at hlength
    simp only [clause?, hs, hs', hlength]
    cases hn : conditionLength? 0 (mark (c :: t)) with
    | none => rfl
    | some n =>
      have hle : n ≤ (c :: t).length := by
        have hget := conditionLength?_code hn
        rw [← length_mark]
        exact Nat.le_of_lt (List.getElem?_eq_some_iff.1 hget).1
      simp only [Option.bind_eq_bind, Option.bind_some, List.drop_append_of_le_length hle,
        List.take_append_of_le_length hle, enclosed?_blank hw]
      cases enclosed? ((c :: t).drop n) with
      | none => rfl
      | some found => rfl

theorem afterElse?_blank (s : List Char) : (afterElse? s = none ∧ afterElse? (s ++ w) = none) ∨
    ∃ after after', afterElse? s = some after ∧ afterElse? (s ++ w) = some after' ∧
      Padded w after after' := by
  have htrivia : ∀ s, dropTrivia (s ++ w) = if dropTrivia s = [] then [] else dropTrivia s ++ w :=
    skip_blank uniform_isTrivia (fun _ hc => hc) hw
  have hword : startsWithWord "else".toList (dropTrivia (s ++ w)) =
      startsWithWord "else".toList (dropTrivia s) := by
    rw [htrivia]
    split
    · next hnil => rw [hnil]
    · exact startsWithWord_append (isWord_of_isIdentifier (by decide)) (stops_isWord_blank hw) _
  cases helse : startsWithWord "else".toList (dropTrivia s) with
  | false => exact .inl ⟨afterElse?_of_false helse, afterElse?_of_false (hword.trans helse)⟩
  | true =>
    obtain ⟨t, ht, -⟩ := startsWithWord_eq_true.1 helse
    have ht' : dropTrivia (s ++ w) = "else".toList ++ (t ++ w) := by
      rw [htrivia, ht, if_neg (List.append_ne_nil_of_left_ne_nil (by decide) t), List.append_assoc]
    refine .inr ⟨_, _, afterElse?_of_eq ht helse, afterElse?_of_eq ht' (hword.trans helse), ?_⟩
    rw [htrivia t]
    split
    · next hnil =>
      rw [hnil]
      exact .nil
    · exact .behind _

theorem startsWithIf_blank (s : List Char) : startsWithIf (s ++ w) = startsWithIf s :=
  startsWithWord_append (isWord_of_isIdentifier (by decide)) (stops_isWord_blank hw) s

theorem clause?_if_blank (hif : startsWithIf s = true) :
    clause? ((s ++ w).drop 2) = (clause? (s.drop 2)).map fun p => (p.1, p.2 ++ w) := by
  obtain ⟨t, rfl, -⟩ := startsWithWord_eq_true.1 hif
  exact clause?_blank hw t

theorem read?_none_blank (hif : startsWithIf s = true) (h : Conditional.read? s = none) :
    Conditional.read? (s ++ w) = none := by
  rw [Conditional.read?_eq_none_iff] at h ⊢
  rw [clause?_if_blank hw hif, h, Option.map_none]

/-- What decides how a conditional goes on is found in front of the white space. -/
theorem read?_else_blank {condition block : List Char} (hif : startsWithIf s = true)
    (hc : clause? (s.drop 2) = some (⟨condition, block⟩, rest))
    (he : afterElse? rest = some after) :
    ∃ after', Padded w after after' ∧ Conditional.read? (s ++ w) =
      if startsWithIf after then
        match Conditional.read? (after ++ w) with
        | none => some (.plain condition block, after ++ w)
        | some (next, rest) => some (.chain condition block next, rest)
      else if after.head? = some '{' then
        match enclosed? (after ++ w) with
        | none => some (.unfinished condition block, [])
        | some (otherwise, rest) => some (.alternative condition block otherwise, rest)
      else some (.plain condition block, after') := by
  have hclause := clause?_if_blank hw hif
  rw [hc, Option.map_some] at hclause
  rcases afterElse?_blank hw rest with ⟨hnone, -⟩ | ⟨_, after', he', hread, hpadded⟩
  · cases hnone.symm.trans he
  · cases he.symm.trans he'
    refine ⟨after', hpadded, ?_⟩
    rw [read?_else hclause hread]
    cases hpadded with
    | nil => rfl
    | behind =>
      have hhead : (after ++ w).head? = some '{' ↔ after.head? = some '{' := by
        cases after with
        | nil =>
          refine iff_of_false (fun hbrace => ?_) (by simp)
          exact absurd (hw '{' (List.mem_of_mem_head? hbrace)) (by decide)
        | cons d after => rfl
      exact if_congr (by rw [startsWithIf_blank hw]) rfl (if_congr hhead rfl rfl)

/-- A conditional is read in the same way with white space behind the text. -/
theorem read?_blank {c : Conditional} (hif : startsWithIf s = true)
    (h : Conditional.read? s = some (c, rest)) :
    ∃ rest', Conditional.read? (s ++ w) = some (c, rest') ∧ Padded w rest rest' := by
  fun_induction Conditional.read? s generalizing c rest with
  | case1 => cases h
  | case2 s condition block after hc he =>
    cases h
    have hclause := clause?_if_blank hw hif
    rw [hc, Option.map_some] at hclause
    rcases afterElse?_blank hw after with ⟨-, hnone⟩ | ⟨_, _, he', -⟩
    · exact ⟨_, read?_plain hclause hnone, .behind after⟩
    · cases he.symm.trans he'
  | case3 s condition block between hc after he hlt hif' hnone ih =>
    cases h
    obtain ⟨after', -, hread⟩ := read?_else_blank hw hif hc he
    rw [hread, if_pos hif', read?_none_blank hw hif' hnone]
    exact ⟨_, rfl, .behind after⟩
  | case4 s condition block between hc after he hlt hif' next rest' hnext ih =>
    cases h
    obtain ⟨after', -, hread⟩ := read?_else_blank hw hif hc he
    obtain ⟨rest', hnext', hpadded⟩ := ih hif' hnext
    rw [hread, if_pos hif', hnext']
    exact ⟨_, rfl, hpadded⟩
  | case5 s condition block between hc after he hlt hif' hbrace hnone =>
    cases h
    obtain ⟨after', -, hread⟩ := read?_else_blank hw hif hc he
    rw [hread, if_neg hif', if_pos hbrace, enclosed?_blank hw, hnone]
    exact ⟨_, rfl, .nil⟩
  | case6 s condition block between hc after he hlt hif' hbrace otherwise rest' hblock =>
    cases h
    obtain ⟨after', -, hread⟩ := read?_else_blank hw hif hc he
    rw [hread, if_neg hif', if_pos hbrace, enclosed?_blank hw, hblock]
    exact ⟨_, rfl, .behind _⟩
  | case7 s condition block between hc after he hlt hif' hbrace =>
    cases h
    obtain ⟨after', hpadded, hread⟩ := read?_else_blank hw hif hc he
    rw [hread, if_neg hif', if_neg hbrace]
    exact ⟨_, rfl, hpadded⟩

theorem headConditional?_blank {c : Conditional} (h : headConditional? s = some (c, rest)) :
    ∃ rest', headConditional? (s ++ w) = some (c, rest') ∧ Padded w rest rest' := by
  rw [headConditional?, Option.ite_none_right_eq_some] at h
  obtain ⟨rest', hread, hpadded⟩ := read?_blank hw h.1 h.2
  refine ⟨rest', ?_, hpadded⟩
  rw [headConditional?, startsWithIf_blank hw, if_pos h.1, hread]

theorem headConditional?_none_blank (h : headConditional? s = none) :
    headConditional? (s ++ w) = none := by
  rw [headConditional?] at h ⊢
  rw [startsWithIf_blank hw]
  split
  · next hif =>
    rw [if_pos hif] at h
    exact read?_none_blank hw hif h
  · rfl

end

theorem continuesChain_append_plain (hns : ∀ n ∈ ns, n.1 ≠ '.') (ms : List Marked) :
    continuesChain (ms ++ ns) = continuesChain ms := by
  induction ms with
  | nil =>
    change Option.any _ _ = false
    rw [Option.any_eq_false]
    intro n hn
    have hmem := (List.dropWhile_sublist _).subset (List.mem_of_mem_head? hn)
    exact beq_false_of_ne (hns n hmem)
  | cons m ms ih => rw [List.cons_append, continuesChain_cons, continuesChain_cons, ih]

/-- Marks without a dot lengthen an expression only if it goes on to its end without them. -/
theorem expressionLength_append_plain (hns : ∀ n ∈ ns, n.1 ≠ '.') (d : Int) (ms : List Marked) :
    expressionLength d (ms ++ ns) = expressionLength d ms ∨
      expressionLength d ms = ms.length ∧ ms.length ≤ expressionLength d (ms ++ ns) := by
  induction ms generalizing d with
  | nil => exact .inr ⟨rfl, Nat.zero_le _⟩
  | cons m ms ih =>
    rw [List.cons_append, expressionLength_cons, expressionLength_cons,
      continuesChain_append_plain hns, List.length_cons]
    split
    · exact .inl rfl
    · have := ih (depthBehind d m)
      omega

section

variable (hw : ∀ c ∈ w, isBlank c = true)

include hw

theorem siblings_blank_append (s : List Char) : siblings (w ++ s) = siblings s := by
  induction w with
  | nil => rfl
  | cons c w ih =>
    obtain ⟨hc, hw⟩ := List.forall_mem_cons.1 hw
    rw [List.cons_append, siblings_cons hc, ih hw]

theorem siblings_of_blank : siblings w = [] := by
  rw [← List.append_nil w, siblings_blank_append hw, siblings_nil rfl]

/-- An expression takes up white space behind the text only if nothing else is left. -/
theorem headExpression_blank {c : Char}
    (hsep : ∀ m ∈ (mark (c :: s)).head?, m.isSeparator = false) :
    ∃ rest, headExpression (c :: s ++ w) = ((headExpression (c :: s)).1, rest) ∧
      (rest = (headExpression (c :: s)).2 ++ w ∨
        (headExpression (c :: s)).2 = [] ∧ ∀ d ∈ rest, isBlank d = true) := by
  have hpos := expressionLength_mark_pos (List.cons_ne_nil c s) hsep
  have hle := expressionLength_mark_le (c :: s)
  obtain ⟨ms, hms, -, hblank⟩ := exists_mark_blank hw (c :: s)
  have hplain : ∀ m ∈ ms, m.1 ≠ '.' := by
    intro m hm hdot
    exact absurd (hblank m hm) (by rw [hdot]; decide)
  have hlength := expressionLength_append_plain hplain 0 (mark (c :: s))
  rw [← hms] at hlength
  simp only [headExpression, Nat.max_eq_left hpos]
  rcases hlength with hsame | ⟨hall, hmore⟩
  · rw [hsame, Nat.max_eq_left hpos, List.take_append_of_le_length hle,
      List.drop_append_of_le_length hle]
    exact ⟨_, rfl, .inl rfl⟩
  · rw [length_mark] at hall hmore
    obtain ⟨k, hk⟩ := Nat.exists_eq_add_of_le hmore
    have htrim : trim ((c :: s ++ w).take ((c :: s).length + k)) = trim (c :: s) := by
      rw [List.take_length_add_append, List.cons_append, trim_cons (isBlank_of_head hsep),
        trim_cons (isBlank_of_head hsep), trimRight_append_blank]
      exact fun d hd => hw d (List.mem_of_mem_take hd)
    have hmax : max ((c :: s).length + k) 1 = (c :: s).length + k :=
      Nat.max_eq_left (Nat.le_add_right_of_le (Nat.succ_pos _))
    rw [hk, hmax, htrim, hall, List.take_length, List.drop_length,
      List.drop_length_add_append]
    exact ⟨_, rfl, .inr ⟨rfl, fun d hd => hw d (List.mem_of_mem_drop hd)⟩⟩

/-- White space behind a block adds no sibling and changes none. -/
theorem siblings_append_blank (s : List Char) : siblings (s ++ w) = siblings s := by
  have hd' : dropSeparators (s ++ w) =
      if dropSeparators s = [] then [] else dropSeparators s ++ w :=
    skip_blank uniform_isSeparator (fun _ hc => isSeparator_of_isTrivia hc) hw s
  cases hd : dropSeparators s with
  | nil =>
    rw [hd, if_pos rfl] at hd'
    rw [siblings_nil hd, siblings_nil hd']
  | cons c t =>
    rw [hd, if_neg (List.cons_ne_nil c t)] at hd'
    have hle : (c :: t).length ≤ s.length := hd ▸ dropSeparators_length_le s
    cases hc : headConditional? (c :: t) with
    | some found =>
      obtain ⟨conditional, rest⟩ := found
      have hlt : rest.length < s.length := Nat.lt_of_lt_of_le (headConditional?_length hc).1 hle
      obtain ⟨rest', hc', hrest⟩ := headConditional?_blank hw hc
      rw [siblings_conditional hd hc, siblings_conditional hd' hc']
      cases hrest with
      | nil => rfl
      | behind => rw [siblings_append_blank rest]
    | none =>
      have hlt : (headExpression (c :: t)).2.length < s.length := by
        simp only [headExpression, List.length_drop, List.length_cons] at hle ⊢
        omega
      obtain ⟨rest, hhead, hrest⟩ := headExpression_blank hw (hd ▸ head_mark_dropSeparators s)
      rw [siblings_expression hd hc, siblings_expression hd' (headConditional?_none_blank hw hc)]
      change Sibling.expression (headExpression (c :: t ++ w)).1 ::
        siblings (headExpression (c :: t ++ w)).2 = _
      rw [hhead]
      rcases hrest with rfl | ⟨hnil, hblank⟩
      · rw [siblings_append_blank]
      · rw [hnil, siblings_of_blank hblank, siblings_nil rfl]
termination_by s.length

end

/-- White space around a block does not matter. -/
theorem parseBlock_padded (st : Settings) {v : List Char} (hv : ∀ c ∈ v, isBlank c = true)
    (hw : ∀ c ∈ w, isBlank c = true) (s : List Char) :
    parseBlock st (v ++ (s ++ w)) = parseBlock st s := by
  rw [parseBlock_eq, siblings_blank_append hv, siblings_append_blank hw, ← parseBlock_eq]

theorem parseBlock_trimLeft (st : Settings) (s : List Char) :
    parseBlock st (trimLeft s) = parseBlock st s := by
  obtain ⟨v, hs, hv⟩ := exists_trimLeft s
  have hpadded := parseBlock_padded st hv (List.forall_mem_nil _) (trimLeft s)
  rwa [List.append_nil, ← hs, eq_comm] at hpadded

end ViewHierarchy
