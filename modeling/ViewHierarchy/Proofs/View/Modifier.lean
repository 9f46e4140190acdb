import ViewHierarchy.Proofs.View.Writing

/-! Modifier chains as they are read. -/
namespace ViewHierarchy
open Text Source

theorem modifier?_head {s call rest : List Char} (h : modifier? s = some (call, rest)) :
    ∃ c ∈ call.head?, isWord c = true := by
  rw [modifier?] at h
  split at h
  · cases h
  · next c name hs =>
    have hc : c ∈ s.takeWhile isWord := hs ▸ List.mem_cons_self
    refine ⟨c, ?_, List.all_eq_true.1 List.all_takeWhile c hc⟩
    simp only [Option.some.injEq, Prod.mk.injEq] at h
    rw [← h.1]
    by_cases he : (modifierArguments (s.dropWhile isWord)).1.isEmpty = true
    · rw [if_pos he]
      rfl
    · rw [if_neg he]
      rfl

/-- Every modifier was read behind some dot. -/
theorem exists_modifier? {depth : Int} {s modifier : List Char}
    (h : modifier ∈ modifiersFrom depth s) : ∃ t rest, modifier? t = some (modifier, rest) := by
  fun_induction modifiersFrom depth s with
  | case1 => cases h
  | case2 _ _ _ _ _ _ ih => exact ih h
  | case3 _ _ _ _ _ ih => exact ih h
  | case4 _ _ _ _ _ _ ih => exact ih h
  | case5 _ _ _ _ _ _ _ _ ih => exact ih h
  | case6 _ _ _ _ _ _ _ _ _ hm _ ih =>
    rcases List.mem_cons.1 h with rfl | h
    · exact ⟨_, _, hm⟩
    · exact ih h
  | case7 _ _ _ _ _ _ _ ih => exact ih h

/-- A modifier starts with a word character. -/
theorem head_of_mem_modifiersFrom {depth : Int} {s modifier : List Char}
    (h : modifier ∈ modifiersFrom depth s) : ∃ c ∈ modifier.head?, isWord c = true := by
  obtain ⟨t, rest, hm⟩ := exists_modifier? h
  exact modifier?_head hm

theorem stops_writeChain {p : Char → Bool} (h : p '\n' = false) (ms : List (List Char)) :
    Stops p (writeChain ms) := by
  cases ms with
  | nil => exact stops_nil
  | cons m ms => exact stops_cons h _

theorem head_trimLeft_writeChain (ms : List (List Char)) :
    ∀ c ∈ (trimLeft (writeChain ms)).head?, c = '.' := by
  cases ms with
  | nil =>
    intro c hc
    cases hc
  | cons m ms =>
    rw [writeChain, trimLeft_cons (by decide), trimLeft_kept (by decide)]
    intro c hc
    cases hc
    rfl

theorem modifierArguments_none {s : List Char} (h : ∀ c ∈ (trimLeft s).head?, c ≠ '(') :
    modifierArguments s = ([], s) := by
  rw [modifierArguments]
  split
  · next hs => exact absurd rfl (h '(' (hs ▸ rfl))
  · rfl

theorem afterModifierClosures_none {s : List Char} (h : ∀ c ∈ (trimLeft s).head?, c ≠ '{') :
    afterModifierClosures s = s := by
  rw [afterModifierClosures]
  split
  · next hs => exact absurd rfl (h '{' (hs ▸ rfl))
  · rfl

section

variable {depth : Int} {c : Char} {s : List Char}

theorem modifiersFrom_literal {role : Role} {n : Nat} (h : literal? (c :: s) = some (role, n)) :
    modifiersFrom depth (c :: s) = modifiersFrom depth (s.drop (n - 1)) := by
  rw [modifiersFrom, h]

theorem modifiersFrom_opening (h : literal? (c :: s) = none) (ho : isOpening c = true) :
    modifiersFrom depth (c :: s) = modifiersFrom (depth + 1) s := by
  rw [modifiersFrom, h]
  simp only [ho, if_true]

theorem modifiersFrom_closing (h : literal? (c :: s) = none) (ho : isOpening c = false)
    (hc : isClosing c = true) : modifiersFrom depth (c :: s) = modifiersFrom (depth - 1) s := by
  rw [modifiersFrom, h]
  simp only [ho, hc, Bool.false_eq_true, if_false, if_true]

/-- A dot that starts no modifier, as one inside brackets, is passed over. -/
theorem modifiersFrom_skip (h : literal? (c :: s) = none) (ho : isOpening c = false)
    (hc : isClosing c = false) (hdot : c = '.' ∧ depth ≤ 0 → modifier? s = none) :
    modifiersFrom depth (c :: s) = modifiersFrom depth s := by
  rw [modifiersFrom, h]
  simp only [ho, hc, Bool.false_eq_true, if_false]
  split
  · next hd =>
    split
    · rfl
    · next hm => cases (hdot hd).symm.trans hm
  · rfl

theorem modifiersFrom_dot {call after : List Char} (hd : depth ≤ 0)
    (h : modifier? s = some (call, after)) :
    modifiersFrom depth ('.' :: s) = call :: modifiersFrom depth after := by
  rw [modifiersFrom, literal?_eq_none s (by decide) (by decide)]
  have ho : isOpening '.' = false := rfl
  have hc : isClosing '.' = false := rfl
  simp only [ho, hc, hd, Bool.false_eq_true, if_false, and_self, if_true]
  split
  · next hn => cases h.symm.trans hn
  · next hs =>
    cases h.symm.trans hs
    rfl

/-- White space in front of a dot starts no call and ends none. -/
theorem modifiersFrom_gap {gap : List Char} (hgap : ∀ c ∈ gap, isBlank c = true) (depth : Int)
    (s : List Char) : modifiersFrom depth (gap ++ s) = modifiersFrom depth s := by
  induction gap with
  | nil => rfl
  | cons c gap ih =>
    obtain ⟨hc, hrest⟩ := List.forall_mem_cons.1 hgap
    obtain ⟨hopen, hclose, hquote, hslash⟩ := isOrdinary_iff.1 (isOrdinary_of_isBlank hc)
    have hdot : c ≠ '.' := by
      rintro rfl
      exact absurd hc (by decide)
    rw [List.cons_append, modifiersFrom_skip (literal?_eq_none _ hquote hslash) hopen hclose
      fun h => absurd h.1 hdot, ih hrest]

end

end ViewHierarchy
