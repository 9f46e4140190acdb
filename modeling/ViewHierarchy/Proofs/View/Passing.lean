import ViewHierarchy.Proofs.View.Sibling

/-! How far the readers of conditions and of expressions go in a text with nested brackets. -/
namespace ViewHierarchy
open Text Source

variable {ms ns : List Marked}

theorem isBracket_of_isSeparator {m : Marked} (h : m.isSeparator = true) :
    m.isBracket = false := by
  obtain ⟨c, role⟩ := m
  cases role with
  | code =>
    simp only [Marked.isSeparator, Marked.isTrivia, Bool.or_eq_true, beq_iff_eq, Prod.mk.injEq,
      and_true] at h
    rcases h with (h | rfl) | rfl
    · exact isBracket_of_isOrdinary (isOrdinary_of_isBlank h)
    · rfl
    · rfl
  | string | comment => rfl

theorem isSeparator_of_isTrivia {m : Marked} (h : m.isTrivia = true) : m.isSeparator = true := by
  rw [Marked.isSeparator, h, Bool.true_or, Bool.true_or]

theorem conditionLength?_extend {d : Int} {n : Nat} (h : conditionLength? d ms = some n)
    (ns : List Marked) : conditionLength? d (ms ++ ns) = some n := by
  fun_induction conditionLength? d ms generalizing n with
  | case1 => cases h
  | case2 d c rest hc ih =>
    obtain ⟨k, hk, rfl⟩ := Option.map_eq_some_iff.1 h
    rw [List.cons_append, conditionLength?, if_pos hc, ih hk, Option.map_some]
  | case3 d c rest hc hc' ih =>
    obtain ⟨k, hk, rfl⟩ := Option.map_eq_some_iff.1 h
    rw [List.cons_append, conditionLength?, if_neg hc, if_pos hc', ih hk, Option.map_some]
  | case4 d c rest hc hc' hend =>
    rw [List.cons_append, conditionLength?, if_neg hc, if_neg hc', if_pos hend, h]
  | case5 d c rest hc hc' hend ih =>
    obtain ⟨k, hk, rfl⟩ := Option.map_eq_some_iff.1 h
    rw [List.cons_append, conditionLength?, if_neg hc, if_neg hc', if_neg hend, ih hk,
      Option.map_some]
  | case6 d m rest hm ih =>
    obtain ⟨k, hk, rfl⟩ := Option.map_eq_some_iff.1 h
    rw [List.cons_append, conditionLength?, ih hk, Option.map_some]
    exact hm

/-- A condition ends where a brace of code stands. -/
theorem conditionLength?_code {d : Int} {n : Nat} (h : conditionLength? d ms = some n) :
    ms[n]? = some ('{', .code) := by
  fun_induction conditionLength? d ms generalizing n with
  | case1 => cases h
  | case2 d c rest hc ih | case3 d c rest hc hc' ih | case5 d c rest hc hc' hend ih
  | case6 d m rest hm ih =>
    obtain ⟨k, hk, rfl⟩ := Option.map_eq_some_iff.1 h
    exact ih hk
  | case4 d c rest hc hc' hend =>
    cases h
    rw [Bool.and_eq_true, beq_iff_eq] at hend
    rw [hend.1]
    rfl

/-- More text behind a condition and its block stays behind them. -/
theorem clause?_append {s t rest : List Char} {clause : Clause}
    (h : clause? s = some (clause, rest)) (ht : ∀ d ∈ t.head?, d ≠ '/' ∧ d ≠ '*') :
    clause? (s ++ t) = some (clause, rest ++ t) := by
  obtain ⟨n, hn, h⟩ := Option.bind_eq_some_iff.1 h
  obtain ⟨⟨block, rest'⟩, he, h⟩ := Option.bind_eq_some_iff.1 h
  cases h
  have hne : trimLeft s ≠ [] := by
    intro hnil
    rw [hnil] at hn
    cases hn
  have htrim := trimLeft_append hne t
  generalize trimLeft s = y at *
  have hlength : conditionLength? 0 (mark (y ++ t)) = some n := by
    obtain ⟨more, hmore⟩ := mark_isPrefix ht y
    rw [← hmore]
    exact conditionLength?_extend hn more
  obtain ⟨condition, z, rfl, rfl⟩ := split_at_mark (conditionLength?_code hn)
  rw [List.drop_left] at he
  have he' := enclosed?_append he (mark_isPrefix ht z)
  rw [List.append_assoc, List.cons_append] at htrim hlength
  simp only [clause?, htrim, hlength, Option.bind_eq_bind, Option.bind_some, List.drop_left,
    List.take_left, he']
  rfl

theorem conditionLength?_skip {m : Marked} (hm : m.isBracket = false) (d : Int)
    (ms : List Marked) : conditionLength? d (m :: ms) = (conditionLength? d ms).map (· + 1) := by
  obtain ⟨c, role⟩ := m
  cases role with
  | code =>
    simp only [Marked.isBracket, isOpening, isClosing, beq_self_eq_true, Bool.true_and,
      Bool.or_eq_false_iff] at hm
    obtain ⟨⟨⟨h₁, h₂⟩, h₃⟩, ⟨h₄, h₅⟩, -⟩ := hm
    simp [conditionLength?, h₁, h₂, h₃, h₄, h₅]
  | string => rfl
  | comment => rfl

/-- A pair of brackets is passed over, but for a brace that ends the condition. -/
theorem conditionLength?_pair {o c : Char} {d : Int} {inner : List Marked}
    (hc : closing? o = some c) (hd : 0 ≤ d) (hcurly : o = '{' → 0 < d)
    (hinner : ∀ d, 0 < d → ∀ rest, conditionLength? d (inner ++ rest) =
      (conditionLength? d rest).map (· + inner.length)) (rest : List Marked) :
    conditionLength? d ((o, .code) :: (inner ++ (c, .code) :: rest)) =
      (conditionLength? d rest).map (· + ((o, Role.code) :: (inner ++ [(c, .code)])).length) := by
  have hstep : conditionLength? d ((o, .code) :: (inner ++ (c, .code) :: rest)) =
      (((conditionLength? d rest).map (· + 1)).map (· + inner.length)).map (· + 1) := by
    unfold closing? at hc
    split at hc
    · cases hc
      have hd' := hcurly rfl
      have hstop : ¬d ≤ 0 := Int.not_le.2 hd'
      simp [conditionLength?, hinner d hd', hstop]
    · cases hc
      simp [conditionLength?, hinner (d + 1) (by omega)]
    · cases hc
      simp [conditionLength?, hinner (d + 1) (by omega)]
    · cases hc
  rw [hstep, map_add_map_add _ rfl]
  refine map_add_map_add _ ?_
  simp only [List.length_cons, List.length_append, List.length_nil]
  omega

theorem conditionLength?_nested {d : Int} (h : Nested ms) (hd : 0 < d) (rest : List Marked) :
    conditionLength? d (ms ++ rest) = (conditionLength? d rest).map (· + ms.length) := by
  induction h generalizing d rest with
  | nil => simp
  | skip hm _ ih =>
    rw [List.cons_append, conditionLength?_skip hm, ih hd, map_add_map_add _ rfl, List.length_cons]
  | @pair o c inner after hc _ _ ihi iha =>
    rw [List.cons_append, List.append_assoc, List.cons_append,
      conditionLength?_pair hc (Int.le_of_lt hd) (fun _ => hd) (fun _ hd rest => ihi hd rest),
      iha hd]
    refine map_add_map_add _ ?_
    simp only [List.length_cons, List.length_append, List.length_nil]
    omega

/-- The brace that ends a condition does not stand inside a bracket. -/
theorem nested_drop_condition {n : Nat} (h : Nested ms) (hn : conditionLength? 0 ms = some n) :
    ms[n]? = some ('{', .code) ∧ Nested (ms.drop n) := by
  induction h generalizing n with
  | nil => cases hn
  | skip hm _ ih =>
    rw [conditionLength?_skip hm] at hn
    obtain ⟨k, hk, rfl⟩ := Option.map_eq_some_iff.1 hn
    exact ih hk
  | @pair o c inner after hc hi ha _ iha =>
    by_cases ho : o = '{'
    · subst ho
      cases hn
      exact ⟨rfl, .pair hc hi ha⟩
    · rw [conditionLength?_pair hc (Int.le_refl 0) (fun h => absurd h ho)
        (fun _ hd rest => conditionLength?_nested hi hd rest)] at hn
      obtain ⟨k, hk, rfl⟩ := Option.map_eq_some_iff.1 hn
      have hsplit : (o, Role.code) :: (inner ++ (c, .code) :: after) =
          (o, .code) :: (inner ++ [(c, .code)]) ++ after := by simp
      rw [hsplit, Nat.add_comm, List.drop_length_add_append,
        List.getElem?_append_right (Nat.le_add_right _ _), Nat.add_sub_cancel_left]
      exact iha hk

theorem continuesChain_line (h : continuesChain ns = false) (ms : List Marked) :
    continuesChain (ms ++ ('\n', .code) :: ns) = continuesChain ms := by
  rw [continuesChain, continuesChain, List.dropWhile_append]
  split
  · next hall =>
    rw [List.isEmpty_iff.1 hall, List.dropWhile_cons_of_pos (by decide)]
    exact h
  · next hall =>
    obtain ⟨m, rest, hrest⟩ := List.exists_cons_of_ne_nil (fun h => hall (List.isEmpty_iff.2 h))
    rw [hrest]
    rfl

/-- An expression of a nested text ends at the line break behind the text at the latest. -/
theorem expressionLength_line (h : Nested ms) (hns : continuesChain ns = false) :
    expressionLength 0 (ms ++ ('\n', .code) :: ns) = expressionLength 0 ms := by
  induction h with
  | nil => rw [List.nil_append, expressionLength_skip (by decide), if_pos (.inr ⟨rfl, hns⟩)]; rfl
  | skip hm _ ih =>
    rw [List.cons_append, expressionLength_skip hm, expressionLength_skip hm,
      continuesChain_line hns, ih]
  | pair hc hi _ _ iha =>
    rw [List.cons_append, List.append_assoc, List.cons_append, expressionLength_pair hc hi,
      expressionLength_pair hc hi, iha]

theorem expressionLength_le (d : Int) (ms : List Marked) : expressionLength d ms ≤ ms.length := by
  fun_induction expressionLength d ms with
  | case1 => exact Nat.le_refl 0
  | case2 d c rest hc ih => exact Nat.succ_le_succ ih
  | case3 d c rest hc hc' ih => exact Nat.succ_le_succ ih
  | case4 d c rest hc hc' hend => exact Nat.zero_le _
  | case5 d c rest hc hc' hend ih => exact Nat.succ_le_succ ih
  | case6 d m rest hm ih => exact Nat.succ_le_succ ih

theorem expressionLength_pos {m : Marked} (hm : m.isSeparator = false) (ms : List Marked) :
    0 < expressionLength 0 (m :: ms) := by
  cases hbracket : m.isBracket with
  | false =>
    rw [expressionLength_skip hbracket, if_neg]
    · exact Nat.succ_pos _
    · rintro (rfl | ⟨rfl, -⟩)
      · revert hm
        decide
      · revert hm
        decide
  | true =>
    obtain ⟨c, role⟩ := m
    rw [Marked.isBracket, Bool.and_eq_true, beq_iff_eq, Bool.or_eq_true] at hbracket
    obtain ⟨rfl, hc⟩ := hbracket
    rw [expressionLength]
    split
    · exact Nat.succ_pos _
    · next hopen =>
      rw [if_pos (hc.resolve_left hopen)]
      exact Nat.succ_pos _

/-- The expression that starts a text is not empty if the text starts with no separator. -/
theorem expressionLength_mark_pos {s : List Char} (hne : s ≠ [])
    (hsep : ∀ m ∈ (mark s).head?, m.isSeparator = false) : 0 < expressionLength 0 (mark s) := by
  cases hs : mark s with
  | nil => exact absurd (by rw [← map_fst_mark s, hs]; rfl) hne
  | cons m ms =>
    rw [hs] at hsep
    exact expressionLength_pos (hsep m rfl) ms

theorem expressionLength_mark_le (s : List Char) : expressionLength 0 (mark s) ≤ s.length := by
  rw [← length_mark s]
  exact expressionLength_le 0 (mark s)

/-- An expression ends where a semicolon or a line break of code stands. -/
theorem expressionLength_end {d : Int} {m : Marked} (h : ms[expressionLength d ms]? = some m) :
    m = (';', .code) ∨ m = ('\n', .code) := by
  fun_induction expressionLength d ms with
  | case1 => cases h
  | case2 d c rest hc ih => exact ih h
  | case3 d c rest hc hc' ih => exact ih h
  | case4 d c rest hc hc' hend =>
    cases h
    rcases hend.2 with rfl | ⟨rfl, -⟩
    · exact .inl rfl
    · exact .inr rfl
  | case5 d c rest hc hc' hend ih => exact ih h
  | case6 d m' rest hm ih => exact ih h

theorem expressionLength_code {d : Int} {m : Marked} (h : ms[expressionLength d ms]? = some m) :
    m.2 = .code := by
  rcases expressionLength_end h with rfl | rfl <;> rfl

/-- The bracket depth behind a mark. -/
def depthBehind (d : Int) : Marked → Int
  | (c, .code) => if isOpening c then d + 1 else if isClosing c then d - 1 else d
  | _ => d

theorem expressionLength_cons (d : Int) (m : Marked) (ms : List Marked) :
    expressionLength d (m :: ms) =
      if d ≤ 0 ∧ (m = (';', .code) ∨ m = ('\n', .code) ∧ continuesChain ms = false) then 0
      else expressionLength (depthBehind d m) ms + 1 := by
  obtain ⟨c, role⟩ := m
  cases role with
  | code =>
    rw [expressionLength, depthBehind]
    split
    · next hc =>
      rw [if_neg]
      rintro ⟨-, h | ⟨h, -⟩⟩ <;> cases h <;> cases hc
    · split
      · next hc =>
        rw [if_neg]
        rintro ⟨-, h | ⟨h, -⟩⟩ <;> cases h <;> cases hc
      · simp
  | string => simp [expressionLength, depthBehind]
  | comment => simp [expressionLength, depthBehind]

theorem continuesChain_cons {m : Marked} (ms : List Marked) :
    continuesChain (m :: ms) = if m.isTrivia then continuesChain ms else m.1 == '.' := by
  rw [continuesChain, List.dropWhile_cons]
  split
  · rfl
  · rfl

/-- A chain goes on to the dot that is seen ahead. -/
theorem expressionLength_chain (d : Int) (h : continuesChain (ms ++ ns) = true)
    (hms : ∀ m ∈ ms, m.isTrivia = true ∨ m.1 ≠ '.') :
    ms.length < expressionLength d (ms ++ ns) := by
  have hnext : ∀ (d : Int) (m : Marked) (ms : List Marked), continuesChain (m :: ms) = true →
      expressionLength d (m :: ms) = expressionLength (depthBehind d m) ms + 1 := by
    intro d m ms h
    rw [expressionLength_cons, if_neg]
    rintro ⟨-, rfl | ⟨rfl, hstop⟩⟩
    · cases h
    · cases hstop.symm.trans h
  induction ms generalizing d with
  | nil =>
    cases ns with
    | nil => cases h
    | cons n ns =>
      rw [List.nil_append, hnext d n ns h]
      exact Nat.succ_pos _
  | cons m ms ih =>
    obtain ⟨hm, hms⟩ := List.forall_mem_cons.1 hms
    rw [List.cons_append] at h ⊢
    have hms' : continuesChain (ms ++ ns) = true := by
      rw [continuesChain_cons] at h
      split at h
      · exact h
      · next htrivia => exact absurd (eq_of_beq h) (hm.resolve_left htrivia)
    rw [hnext d m _ h, List.length_cons]
    exact Nat.succ_lt_succ (ih _ hms' hms)

theorem isTrivia_of_chain (h : continuesChain (ms ++ ns) = true) (hms : continuesChain ms = false) :
    ∀ m ∈ ms, m.isTrivia = true := by
  induction ms with
  | nil => exact List.forall_mem_nil _
  | cons m ms ih =>
    rw [List.cons_append, continuesChain_cons] at h
    rw [continuesChain_cons] at hms
    split at h
    · next hm =>
      rw [if_pos hm] at hms
      exact List.forall_mem_cons.2 ⟨hm, ih h hms⟩
    · next hm =>
      rw [if_neg hm] at hms
      exact absurd (hms.symm.trans h) Bool.false_ne_true

/-- An expression whose end without a dot is cut off goes on to the cut. -/
theorem expressionLength_cut {as bs cs : List Marked} {d : Int}
    (h : expressionLength d (as ++ bs ++ cs) = as.length + bs.length)
    (hbs : ∀ m ∈ bs, m.1 ≠ '.') : expressionLength d as = as.length := by
  induction as generalizing d with
  | nil => rfl
  | cons m as ih =>
    rw [List.cons_append, List.cons_append, expressionLength_cons, List.length_cons] at h
    split at h
    · omega
    · next hgo =>
      have hrest : expressionLength (depthBehind d m) (as ++ bs ++ cs) =
          as.length + bs.length := by omega
      rw [expressionLength_cons, if_neg, ih hrest, List.length_cons]
      rintro ⟨hd, rfl | ⟨rfl, hstop⟩⟩
      · exact hgo ⟨hd, .inl rfl⟩
      · -- The dot that the line break saw ahead stands behind the cut.
        have hchain : continuesChain (as ++ bs ++ cs) = true := by
          rw [← Bool.not_eq_false]
          exact fun hfalse => hgo ⟨hd, .inr ⟨rfl, hfalse⟩⟩
        have hlt := expressionLength_chain (depthBehind d ('\n', .code)) hchain fun m hm => by
          rcases List.mem_append.1 hm with hm | hm
          · rw [List.append_assoc] at hchain
            exact .inl (isTrivia_of_chain hchain hstop m hm)
          · exact .inr (hbs m hm)
        rw [hrest, List.length_append] at hlt
        exact absurd hlt (Nat.lt_irrefl _)

theorem nested_drop_expression (h : Nested ms) : Nested (ms.drop (expressionLength 0 ms)) := by
  induction h with
  | nil => exact .nil
  | skip hm h ih =>
    rw [expressionLength_skip hm]
    split
    · exact .skip hm h
    · exact ih
  | @pair o c inner after hc hi _ _ iha =>
    have hsplit : (o, Role.code) :: (inner ++ (c, .code) :: after) =
        (o, .code) :: (inner ++ [(c, .code)]) ++ after := by simp
    rw [expressionLength_pair hc hi, hsplit, Nat.add_comm, List.drop_length_add_append]
    exact iha

end ViewHierarchy
