import ViewHierarchy.Source.Mask

/-! Where the roles of a text can be told from a part of it. A literal is found from its opening
characters on, so a text falls apart at every character of code. -/
namespace ViewHierarchy.Source

/-- A length that more text changes only if all the text so far was read. -/
def Settles (read : List Char → Nat) : Prop :=
  ∀ s t, read (s ++ t) = read s ∨ read s = s.length ∧ s.length ≤ read (s ++ t)

theorem lineStringTail_cons {c : Char} (s : List Char) (hesc : c ≠ '\\') (hquote : c ≠ '"')
    (hline : c ≠ '\n') : lineStringTail (c :: s) = lineStringTail s + 1 :=
  lineStringTail.eq_5 c s (fun _ _ h _ => hesc h) (fun h => hquote h) (fun h => hline h)

theorem settles_lineStringTail : Settles lineStringTail := by
  intro s t
  fun_induction lineStringTail s with
  | case1 => exact .inr ⟨rfl, Nat.zero_le _⟩
  | case2 c rest ih =>
    simp only [List.cons_append, lineStringTail, List.length_cons]
    omega
  | case3 rest => exact .inl rfl
  | case4 rest => exact .inl rfl
  | case5 c rest hesc hquote hline ih =>
    by_cases hc : c = '\\'
    · -- A backslash is read alone only where nothing follows it.
      subst hc
      cases rest with
      | nil =>
        cases t with
        | nil => exact .inl rfl
        | cons d t => exact .inr ⟨rfl, Nat.le_add_left 1 _⟩
      | cons d rest => exact absurd rfl (hesc d rest rfl)
    · rw [List.cons_append, lineStringTail_cons _ hc hquote hline, List.length_cons]
      omega

theorem textStringTail_cons {c : Char} {s : List Char} (hesc : c ≠ '\\')
    (hquote : ¬['"', '"', '"'] <+: c :: s) : textStringTail (c :: s) = textStringTail s + 1 :=
  textStringTail.eq_4 c s (fun _ _ h _ => hesc h) fun t h h' =>
    hquote ⟨t, by rw [h, h']; rfl⟩

theorem settles_textStringTail : Settles textStringTail := by
  intro s t
  fun_induction textStringTail s with
  | case1 => exact .inr ⟨rfl, Nat.zero_le _⟩
  | case2 c rest ih =>
    simp only [List.cons_append, textStringTail, List.length_cons]
    omega
  | case3 rest => exact .inl rfl
  | case4 c rest hesc hquote ih =>
    by_cases hc : c = '\\'
    · subst hc
      cases rest with
      | nil =>
        cases t with
        | nil => exact .inl rfl
        | cons d t => exact .inr ⟨rfl, Nat.le_add_left 1 _⟩
      | cons d rest => exact absurd rfl (hesc d rest rfl)
    · by_cases hq : ['"', '"', '"'] <+: c :: (rest ++ t)
      · -- The quotes that end the string straddle the seam.
        obtain ⟨u, hu⟩ := hq
        have he : textStringTail (c :: rest ++ t) = 3 := by
          rw [List.cons_append, ← hu]
          rfl
        rw [he]
        simp only [List.cons_append, List.nil_append, List.cons.injEq] at hu
        obtain ⟨rfl, hu⟩ := hu
        match rest, hu with
        | [], _ => exact .inr ⟨rfl, Nat.le_add_left 1 2⟩
        | [d], hu =>
          obtain ⟨rfl, -⟩ := List.cons.inj hu
          exact .inr ⟨rfl, Nat.le_add_left 2 1⟩
        | d :: d' :: rest, hu =>
          simp only [List.cons_append, List.cons.injEq] at hu
          obtain ⟨rfl, rfl, -⟩ := hu
          exact absurd rfl (hquote rest rfl)
      · rw [List.cons_append, textStringTail_cons hc hq, List.length_cons]
        omega

theorem blockCommentTail_cons {c : Char} {s : List Char} (h : ¬['*', '/'] <+: c :: s) :
    blockCommentTail (c :: s) = blockCommentTail s + 1 :=
  blockCommentTail.eq_3 c s fun t hc hs => h ⟨t, by rw [hc, hs]; rfl⟩

theorem settles_blockCommentTail : Settles blockCommentTail := by
  intro s t
  fun_induction blockCommentTail s with
  | case1 => exact .inr ⟨rfl, Nat.zero_le _⟩
  | case2 rest => exact .inl rfl
  | case3 c rest hend ih =>
    by_cases hp : ['*', '/'] <+: c :: (rest ++ t)
    · obtain ⟨u, hu⟩ := hp
      have he : blockCommentTail (c :: rest ++ t) = 2 := by
        rw [List.cons_append, ← hu]
        rfl
      rw [he]
      simp only [List.cons_append, List.nil_append, List.cons.injEq] at hu
      obtain ⟨rfl, hu⟩ := hu
      cases rest with
      | nil => exact .inr ⟨rfl, Nat.le_add_left 1 1⟩
      | cons d rest =>
        obtain ⟨rfl, -⟩ := List.cons.inj hu
        exact absurd rfl (hend rest rfl)
    · rw [List.cons_append, blockCommentTail_cons hp, List.length_cons]
      omega

theorem settles_lineCommentTail : Settles lineCommentTail := by
  intro s t
  induction s with
  | nil => exact .inr ⟨rfl, Nat.zero_le _⟩
  | cons c rest ih =>
    by_cases hc : c = '\n'
    · subst hc
      exact .inl rfl
    · have he : ∀ u, lineCommentTail (c :: u) = lineCommentTail u + 1 := by
        intro u
        simp only [lineCommentTail, List.takeWhile_cons, bne_iff_ne, ne_eq, hc,
          not_false_eq_true, if_true, List.length_cons]
      rw [List.cons_append, he, he, List.length_cons]
      omega

theorem literal?_pos {s : List Char} {role : Role} {n : Nat} (h : literal? s = some (role, n)) :
    0 < n ∧ role ≠ .code := by
  unfold literal? at h
  split at h <;> cases h <;> exact ⟨Nat.succ_pos _, Role.noConfusion⟩

theorem literal?_quote {s : List Char} (h : ¬['"', '"'] <+: s) :
    literal? ('"' :: s) = some (.string, lineStringTail s + 1) :=
  literal?.eq_2 s fun t hs => h ⟨t, hs.symm⟩

theorem literal?_slash {s : List Char} {role : Role} {n : Nat}
    (h : literal? ('/' :: s) = some (role, n)) :
    1 < n ∧ (s.head? = some '/' ∨ s.head? = some '*') := by
  match s, h with
  | [], h => cases h
  | c :: rest, h =>
    by_cases hc : c = '/'
    · subst hc
      cases h
      exact ⟨Nat.le_add_left 2 _, .inl rfl⟩
    · by_cases hs : c = '*'
      · subst hs
        cases h
        exact ⟨Nat.le_add_left 2 _, .inr rfl⟩
      · simp [literal?, hc, hs] at h

/-- A quote opens a string; a slash opens a comment if a slash or a star comes next. -/
theorem literal?_eq_none_iff {c : Char} {s : List Char} :
    literal? (c :: s) = none ↔
      c ≠ '"' ∧ (c = '/' → s.head? ≠ some '/' ∧ s.head? ≠ some '*') := by
  constructor
  · intro h
    refine ⟨?_, ?_⟩
    · rintro rfl
      by_cases hs : ['"', '"'] <+: s
      · obtain ⟨t, rfl⟩ := hs
        cases h
      · cases (literal?_quote hs).symm.trans h
    · rintro rfl
      constructor
      · intro hs
        obtain ⟨t, rfl⟩ := List.head?_eq_some_iff.1 hs
        cases h
      · intro hs
        obtain ⟨t, rfl⟩ := List.head?_eq_some_iff.1 hs
        cases h
  · rintro ⟨hquote, hslash⟩
    cases hl : literal? (c :: s) with
    | none => rfl
    | some p =>
      by_cases hc : c = '/'
      · subst hc
        rcases (literal?_slash hl).2 with h | h
        · exact absurd h (hslash rfl).1
        · exact absurd h (hslash rfl).2
      · simp [literal?, hc, hquote] at hl

theorem literal?_eq_none {c : Char} (s : List Char) (hquote : c ≠ '"') (hslash : c ≠ '/') :
    literal? (c :: s) = none :=
  literal?_eq_none_iff.2 ⟨hquote, fun h => absurd h hslash⟩

/-- More text changes a literal only if the literal was all of the text so far. -/
theorem literal?_extend {s : List Char} {role : Role} {n : Nat}
    (h : literal? s = some (role, n)) (t : List Char) :
    ∃ m, literal? (s ++ t) = some (role, m) ∧ (m = n ∨ n = s.length ∧ s.length ≤ m) := by
  fun_cases literal? s with
  | case1 rest =>
    cases h
    refine ⟨textStringTail (rest ++ t) + 3, rfl, ?_⟩
    have hr := settles_textStringTail rest t
    simp only [List.length_cons]
    omega
  | case2 rest hquote =>
    have hq : ¬['"', '"'] <+: rest := fun ⟨u, hu⟩ => hquote u hu.symm
    rw [literal?_quote hq] at h
    cases h
    by_cases ht : ['"', '"'] <+: rest ++ t
    · obtain ⟨u, hu⟩ := ht
      refine ⟨textStringTail u + 3, by rw [List.cons_append, ← hu]; rfl, .inr ?_⟩
      match rest, hu with
      | [], _ => exact ⟨rfl, Nat.le_add_left 1 _⟩
      | [c], hu =>
        obtain ⟨rfl, -⟩ := List.cons.inj hu
        exact ⟨rfl, Nat.le_add_left 2 _⟩
      | c :: d :: rest, hu =>
        simp only [List.cons_append, List.nil_append, List.cons.injEq] at hu
        obtain ⟨rfl, rfl, -⟩ := hu
        exact absurd rfl (hquote rest)
    · refine ⟨lineStringTail (rest ++ t) + 1, literal?_quote ht, ?_⟩
      have hr := settles_lineStringTail rest t
      simp only [List.length_cons]
      omega
  | case3 rest =>
    cases h
    refine ⟨lineCommentTail (rest ++ t) + 2, rfl, ?_⟩
    have hr := settles_lineCommentTail rest t
    simp only [List.length_cons]
    omega
  | case4 rest =>
    cases h
    refine ⟨blockCommentTail (rest ++ t) + 2, rfl, ?_⟩
    have hr := settles_blockCommentTail rest t
    simp only [List.length_cons]
    omega
  | case5 => simp_all only [literal?, reduceCtorEq]

/-- What opens a literal stands within its first two characters. -/
theorem length_lt_of_literal?_append {s t : List Char} {role : Role} {n : Nat}
    (h : literal? (s ++ t) = some (role, n)) (hs : literal? s = none) : s.length < n := by
  cases s with
  | nil => exact (literal?_pos h).1
  | cons c rest =>
    obtain ⟨hquote, hslash⟩ := literal?_eq_none_iff.1 hs
    have hc : c = '/' := Decidable.byContradiction fun hc =>
      absurd (h.symm.trans (literal?_eq_none _ hquote hc)) (Option.some_ne_none _)
    subst hc
    obtain ⟨hn, hhead⟩ := literal?_slash h
    cases rest with
    | nil => exact hn
    | cons d rest =>
      rcases hhead with hd | hd
      · exact absurd hd (hslash rfl).1
      · exact absurd hd (hslash rfl).2

theorem literal?_none_of_append {s t : List Char} (h : literal? (s ++ t) = none) :
    literal? s = none := by
  cases hs : literal? s with
  | none => rfl
  | some p =>
    obtain ⟨m, hm, -⟩ := literal?_extend hs t
    exact absurd (hm.symm.trans h) (Option.some_ne_none _)

theorem literal?_of_append {s t : List Char} {role : Role} {n : Nat}
    (h : literal? (s ++ t) = some (role, n)) (hn : n ≤ s.length) : literal? s = some (role, n) := by
  cases hs : literal? s with
  | none => exact absurd hn (Nat.not_le_of_lt (length_lt_of_literal?_append h hs))
  | some p =>
    obtain ⟨m, hm, hmn⟩ := literal?_extend hs t
    obtain ⟨rfl, rfl⟩ := Prod.mk.inj (Option.some.inj (h.symm.trans hm))
    rcases hmn with rfl | ⟨he, hle⟩
    · rfl
    · rw [Nat.le_antisymm hn hle, ← he]

theorem markFrom_zero (role : Role) (s : List Char) : markFrom role 0 s = mark s := by
  induction s with
  | nil => rfl
  | cons c rest ih =>
    rw [mark, markFrom, markFrom]
    split
    · rw [ih, mark]
    · rfl

theorem mark_nil : mark [] = [] := rfl

theorem mark_cons {c : Char} {s : List Char} (h : literal? (c :: s) = none) :
    mark (c :: s) = (c, .code) :: mark s := by
  rw [mark, markFrom, h]
  rfl

theorem markFrom_append (role : Role) (left : Nat) (s : List Char) :
    markFrom role left s = (s.take left).map (·, role) ++ mark (s.drop left) := by
  induction s generalizing left with
  | nil => cases left <;> rfl
  | cons c rest ih =>
    cases left with
    | zero => exact markFrom_zero role (c :: rest)
    | succ left => rw [markFrom, ih, List.take_succ_cons, List.drop_succ_cons, List.map_cons]; rfl

/-- A literal is marked as a whole, and what follows it on its own. -/
theorem mark_literal {s : List Char} {role : Role} {n : Nat} (h : literal? s = some (role, n)) :
    mark s = (s.take n).map (·, role) ++ mark (s.drop n) := by
  cases s with
  | nil => cases h
  | cons c rest =>
    obtain ⟨k, rfl⟩ := Nat.exists_eq_add_of_le' (literal?_pos h).1
    rw [mark, markFrom, h]
    simp only [Nat.add_sub_cancel, markFrom_append, List.take_succ_cons, List.drop_succ_cons,
      List.map_cons, List.cons_append]

/-- Reading a text literal by literal, and its code character by character. -/
theorem lexeme_induction {motive : List Char → Prop} (nil : motive [])
    (code : ∀ c s, literal? (c :: s) = none → motive s → motive (c :: s))
    (literal : ∀ s role n, literal? s = some (role, n) → motive (s.drop n) → motive s)
    (s : List Char) : motive s := by
  match s with
  | [] => exact nil
  | c :: rest =>
    match h : literal? (c :: rest) with
    | none => exact code c rest h (lexeme_induction nil code literal rest)
    | some (role, n) =>
      have hpos := (literal?_pos h).1
      exact literal _ role n h (lexeme_induction nil code literal _)
termination_by s.length
decreasing_by
  · exact Nat.lt_succ_self _
  · simp only [List.length_drop, List.length_cons]
    omega

/-- Neither quotes nor slashes occur in the text, so no literal does. -/
def Plain (s : List Char) : Prop := ∀ c ∈ s, c ≠ '"' ∧ c ≠ '/'

theorem Plain.mark_append {s : List Char} (h : Plain s) (t : List Char) :
    mark (s ++ t) = s.map (·, .code) ++ mark t := by
  induction s with
  | nil => rfl
  | cons c rest ih =>
    obtain ⟨hc, hrest⟩ := List.forall_mem_cons.1 h
    rw [List.cons_append, mark_cons (literal?_eq_none _ hc.1 hc.2), ih hrest, List.map_cons,
      List.cons_append]

theorem Plain.mark {s : List Char} (h : Plain s) : Source.mark s = s.map (·, .code) := by
  have := h.mark_append []
  rwa [List.append_nil, mark_nil, List.append_nil] at this

theorem split_at_getElem? {α : Type} {xs : List α} {k : Nat} {a : α} (h : xs[k]? = some a) :
    ∃ ys zs, xs = ys ++ a :: zs ∧ ys.length = k := by
  obtain ⟨hk, rfl⟩ := List.getElem?_eq_some_iff.1 h
  refine ⟨xs.take k, xs.drop (k + 1), ?_, List.length_take_of_le (Nat.le_of_lt hk)⟩
  rw [← List.drop_eq_getElem_cons hk, List.take_append_drop]

theorem split_at_mark {s : List Char} {k : Nat} {c : Char} {role : Role}
    (h : (mark s)[k]? = some (c, role)) : ∃ p t, s = p ++ c :: t ∧ p.length = k := by
  apply split_at_getElem?
  rw [← map_fst_mark s, List.getElem?_map, h]
  rfl

/-- What is code after a literal is code in the text that follows it. -/
theorem code_of_literal {s : List Char} {role : Role} {n k : Nat} {c : Char}
    (h : literal? s = some (role, n)) (hk : (mark s)[k]? = some (c, .code)) :
    n ≤ k ∧ (mark (s.drop n))[k - n]? = some (c, .code) := by
  rw [mark_literal h] at hk
  by_cases hlt : k < ((s.take n).map (·, role)).length
  · rw [List.getElem?_append_left hlt, List.getElem?_map] at hk
    obtain ⟨d, -, hd⟩ := Option.map_eq_some_iff.1 hk
    exact absurd (Prod.mk.inj hd).2 (literal?_pos h).2
  · rw [List.getElem?_append_right (Nat.le_of_not_lt hlt)] at hk
    by_cases hn : n ≤ s.length
    · have hlen : ((s.take n).map (·, role)).length = n := by
        rw [List.length_map, List.length_take_of_le hn]
      rw [hlen] at hlt hk
      exact ⟨Nat.le_of_not_lt hlt, hk⟩
    · rw [List.drop_of_length_le (Nat.le_of_not_le hn), mark_nil] at hk
      cases hk

/-- No literal crosses from the second text into the first, which stands before it. -/
inductive Seam (t : List Char) : List Char → Prop
  | nil : Seam t []
  | code {c s} : literal? (c :: (s ++ t)) = none → Seam t s → Seam t (c :: s)
  | literal {s role n} : literal? (s ++ t) = some (role, n) → n ≤ s.length → Seam t (s.drop n) →
      Seam t s

/-- Texts with a seam between them are marked one by one. -/
theorem Seam.mark_append {s t : List Char} (h : Seam t s) : mark (s ++ t) = mark s ++ mark t := by
  induction h with
  | nil => rfl
  | @code c s hl hs ih =>
    rw [List.cons_append, mark_cons hl, ih, mark_cons (literal?_none_of_append (s := c :: s) hl),
      List.cons_append]
  | @literal s role n hl hn hs ih =>
    rw [mark_literal hl, mark_literal (literal?_of_append hl hn), List.take_append_of_le_length hn,
      List.drop_append_of_le_length hn, ih, List.append_assoc]

/-- There is a seam before every character of code. -/
theorem seam_of_code {s t : List Char} {c : Char}
    (h : (mark (s ++ c :: t))[s.length]? = some (c, .code)) :
    Seam (c :: t) s ∧ literal? (c :: t) = none := by
  match hl : literal? (s ++ c :: t) with
  | none =>
    match s with
    | [] => exact ⟨.nil, hl⟩
    | d :: rest =>
      rw [List.cons_append] at h hl
      rw [mark_cons hl] at h
      obtain ⟨hrest, ht⟩ := seam_of_code (s := rest) h
      exact ⟨.code hl hrest, ht⟩
  | some (role, n) =>
    have hpos := (literal?_pos hl).1
    obtain ⟨hn, hk⟩ := code_of_literal hl h
    rw [List.drop_append_of_le_length hn, ← List.length_drop] at hk
    have hlt : (s.drop n).length < s.length := by
      rw [List.length_drop]
      omega
    obtain ⟨hrest, ht⟩ := seam_of_code hk
    exact ⟨.literal hl hn hrest, ht⟩
termination_by s.length

theorem mark_split {s t : List Char} {c : Char}
    (h : (mark (s ++ c :: t))[s.length]? = some (c, .code)) :
    mark (s ++ c :: t) = mark s ++ (c, .code) :: mark t := by
  obtain ⟨hs, ht⟩ := seam_of_code h
  rw [hs.mark_append, mark_cons ht]

end ViewHierarchy.Source
