import ViewHierarchy.Proofs.Source.Cutting
import ViewHierarchy.Proofs.Source.Trivia

/-! What is passed over in front of a token. It is passed over literal by literal, so it stands
before a seam, and more text behind the token does not change it. -/
namespace ViewHierarchy.Source
open Text (isBlank isWord)

variable {p : Marked → Bool} {b c : Char} {s t w : List Char}

/-- What is left of a text after the marks of a class. -/
def skip (p : Marked → Bool) (s : List Char) : List Char :=
  s.drop ((mark s).takeWhile p).length

theorem dropTrivia_eq_skip (s : List Char) : dropTrivia s = skip Marked.isTrivia s := rfl

theorem dropSeparators_eq_skip (s : List Char) : dropSeparators s = skip Marked.isSeparator s := rfl

theorem skip_append (h : Seam t s) :
    skip p (s ++ t) = if skip p s = [] then skip p t else skip p s ++ t := by
  have hle : ((mark s).takeWhile p).length ≤ s.length := by
    rw [← length_mark s]
    exact (List.takeWhile_prefix p).length_le
  have hnil : skip p s = [] ↔ ((mark s).takeWhile p).length = (mark s).length := by
    rw [skip, List.drop_eq_nil_iff, length_mark]
    omega
  simp only [hnil]
  rw [skip, h.mark_append, List.takeWhile_append]
  split
  · next hall => rw [List.length_append, length_mark, List.drop_length_add_append, skip]
  · rw [List.drop_append_of_le_length hle, skip]

theorem skip_of_head (h : ∀ m ∈ (mark s).head?, p m = false) : skip p s = s := by
  cases hm : mark s with
  | nil => rw [skip, hm, List.takeWhile_nil, List.length_nil, List.drop_zero]
  | cons m ms =>
    rw [hm] at h
    rw [skip, hm, List.takeWhile_cons_of_neg (by rw [h m rfl]; exact Bool.false_ne_true),
      List.length_nil, List.drop_zero]

/-- A literal belongs to the class as a whole or not at all. -/
def Uniform (p : Marked → Bool) : Prop :=
  ∀ role, role ≠ .code → ∀ c d, p (c, role) = p (d, role)

theorem uniform_isTrivia : Uniform Marked.isTrivia := by
  intro role hrole c d
  cases role with
  | code => exact absurd rfl hrole
  | string | comment => rfl

theorem uniform_isSeparator : Uniform Marked.isSeparator := by
  intro role hrole c d
  have hne : ∀ c d : Char, ((c, role) == (d, Role.code)) = false := by
    intro c d
    exact beq_false_of_ne fun h => hrole (Prod.mk.inj h).2
  simp only [Marked.isSeparator, uniform_isTrivia role hrole c d, hne]

theorem skip_code (hl : literal? (c :: s) = none) :
    skip p (c :: s) = if p (c, .code) = true then skip p s else c :: s := by
  rw [skip, mark_cons hl]
  split
  · next hc => rw [List.takeWhile_cons_of_pos hc, List.length_cons, List.drop_succ_cons, skip]
  · next hc => rw [List.takeWhile_cons_of_neg hc, List.length_nil, List.drop_zero]

theorem skip_literal (hp : Uniform p) {role : Role} {n : Nat}
    (hl : literal? s = some (role, n)) :
    skip p s = if p (default, role) = true then skip p (s.drop n) else s := by
  have hall : ∀ m ∈ (s.take n).map (·, role), p m = p (default, role) := by
    intro m hm
    obtain ⟨c, -, rfl⟩ := List.mem_map.1 hm
    exact hp role (literal?_pos hl).2 c default
  rw [skip, mark_literal hl]
  split
  · next hc =>
    rw [List.takeWhile_append_of_pos fun m hm => (hall m hm).trans hc, List.length_append,
      List.length_map, List.length_take_of_le (literal?_le hl), ← List.drop_drop, skip]
  · next hc =>
    obtain ⟨k, rfl⟩ := Nat.exists_eq_add_of_le' (literal?_pos hl).1
    cases s with
    | nil => rfl
    | cons c s =>
      have hfirst : ¬p (c, role) = true := fun h => hc ((hall _ List.mem_cons_self).symm.trans h)
      rw [List.take_succ_cons, List.map_cons, List.cons_append,
        List.takeWhile_cons_of_neg hfirst, List.length_nil, List.drop_zero]

/-- What was passed over stands before a seam. -/
theorem exists_skip (hp : Uniform p) (s : List Char) :
    ∃ w, s = w ++ skip p s ∧ Seam (skip p s) w ∧ ∀ m ∈ mark w, p m = true := by
  induction s using lexeme_induction with
  | nil => exact ⟨[], rfl, .nil, List.forall_mem_nil _⟩
  | code c s hl ih =>
    rw [skip_code hl]
    split
    · next hc =>
      obtain ⟨w, hs, hseam, hw⟩ := ih
      rw [hs] at hl
      refine ⟨c :: w, congrArg _ hs, .code hl hseam, ?_⟩
      rw [mark_cons (literal?_none_of_append (s := c :: w) hl)]
      exact List.forall_mem_cons.2 ⟨hc, hw⟩
    · exact ⟨[], rfl, .nil, List.forall_mem_nil _⟩
  | literal s role n hl ih =>
    rw [skip_literal hp hl]
    split
    · next hc =>
      obtain ⟨w, hs, hseam, hw⟩ := ih
      generalize skip p (s.drop n) = t at hs hseam
      have hlen : (s.take n).length = n := List.length_take_of_le (literal?_le hl)
      have htext : s = s.take n ++ w ++ t := by
        rw [List.append_assoc, ← hs, List.take_append_drop]
      have hle : n ≤ (s.take n ++ w).length := by
        rw [List.length_append, hlen]
        exact Nat.le_add_right _ _
      have hdrop : (s.take n ++ w).drop n = w := List.drop_left' hlen
      have hl' : literal? (s.take n ++ w ++ t) = some (role, n) := by rwa [← htext]
      refine ⟨s.take n ++ w, htext, .literal hl' hle (by rwa [hdrop]), ?_⟩
      rw [mark_literal (literal?_of_append hl' hle), hdrop, List.take_left' hlen]
      intro m hm
      rcases List.mem_append.1 hm with hm | hm
      · obtain ⟨c, -, rfl⟩ := List.mem_map.1 hm
        exact (hp role (literal?_pos hl).2 c default).trans hc
      · exact hw m hm
    · exact ⟨[], rfl, .nil, List.forall_mem_nil _⟩

/-- The token that comes next is not of the class. -/
theorem head_mark_skip (hp : Uniform p) (s : List Char) :
    ∀ m ∈ (mark (skip p s)).head?, p m = false := by
  induction s using lexeme_induction with
  | nil =>
    intro m hm
    cases hm
  | code c s hl ih =>
    rw [skip_code hl]
    split
    · exact ih
    · next hc =>
      intro m hm
      rw [mark_cons hl] at hm
      cases hm
      exact Bool.not_eq_true _ ▸ hc
  | literal s role n hl ih =>
    rw [skip_literal hp hl]
    split
    · exact ih
    · next hc =>
      intro m hm
      obtain ⟨k, rfl⟩ := Nat.exists_eq_add_of_le' (literal?_pos hl).1
      cases s with
      | nil => cases hm
      | cons c s =>
        rw [mark_literal hl] at hm
        cases hm
        rw [hp role (literal?_pos hl).2 c default]
        exact Bool.not_eq_true _ ▸ hc

theorem map_fst_dropWhile (p : Marked → Bool) (s : List Char) :
    ((mark s).dropWhile p).map Prod.fst = skip p s := by
  have hs : ((mark s).takeWhile p).map Prod.fst ++ ((mark s).dropWhile p).map Prod.fst = s := by
    rw [← List.map_append, List.takeWhile_append_dropWhile, map_fst_mark]
  exact (List.drop_left' (List.length_map _)).symm.trans (congrArg (List.drop _) hs)

/-- Trivia in front of a token that is no line break does not end in a word. -/
theorem isWord_getLastD_trivia (h : Seam (c :: t) w) (hc : c ≠ '\n')
    (hw : ∀ m ∈ mark w, m.isTrivia = true) (hb : isWord b = false) :
    isWord (w.getLastD b) = false := by
  induction h generalizing b with
  | nil => exact hb
  | @code d w hl _ ih =>
    rw [mark_cons (literal?_none_of_append (s := d :: w) hl), List.forall_mem_cons] at hw
    rw [List.getLastD_cons]
    exact ih hw.2 (Text.isWord_of_isBlank hw.1)
  | @literal w role n hl hle _ ih =>
    rw [mark_literal (literal?_of_append hl hle)] at hw
    have hrest := fun m hm => hw m (List.mem_append_right _ hm)
    rcases Nat.lt_or_eq_of_le hle with hlt | rfl
    · -- More trivia follows, and the last character is one of it.
      obtain ⟨d, v, hv⟩ := List.exists_cons_of_length_pos (List.length_drop ▸ Nat.sub_pos_of_lt hlt)
      have hlast : w.getLastD b = (w.drop n).getLastD ' ' := by
        rw [← List.take_append_drop n w, getLastD_append, List.take_append_drop, hv,
          List.getLastD_cons, List.getLastD_cons]
      rw [hlast]
      exact ih hrest (by decide)
    · -- The literal ends right before the token, so it is a comment that was closed.
      rcases literal?_end hl (by simp) with hline | ⟨k, d, hk, hd, hend⟩
      · exact absurd (by simpa using hline) hc
      · rw [List.getElem?_append_left (by omega)] at hd
        obtain ⟨q, v, rfl, rfl⟩ := split_at_getElem? hd
        cases v with
        | cons e v => simp at hk
        | nil =>
          rw [getLastD_append, List.getLastD_cons, List.getLastD_nil]
          rcases hend with rfl | rfl <;> decide

/-- The text without the white space and the comments at its end. -/
def dropTrailingTrivia (s : List Char) : List Char :=
  ((mark s).reverse.dropWhile Marked.isTrivia).reverse.map Prod.fst

theorem dropTrailingTrivia_append (h : mark (s ++ t) = mark s ++ mark t)
    (ht : dropTrailingTrivia t ≠ []) :
    dropTrailingTrivia (s ++ t) = s ++ dropTrailingTrivia t := by
  have hne : ((mark t).reverse.dropWhile Marked.isTrivia).isEmpty = false := by
    rw [List.isEmpty_eq_false_iff]
    intro hnil
    apply ht
    rw [dropTrailingTrivia, hnil]
    rfl
  rw [dropTrailingTrivia, h, List.reverse_append, List.dropWhile_append, hne,
    if_neg Bool.false_ne_true, List.reverse_append, List.reverse_reverse, List.map_append,
    map_fst_mark, dropTrailingTrivia]

theorem dropTrailingTrivia_trivia (h : mark (s ++ t) = mark s ++ mark t)
    (ht : ∀ m ∈ mark t, m.isTrivia = true) :
    dropTrailingTrivia (s ++ t) = dropTrailingTrivia s := by
  rw [dropTrailingTrivia, h, List.reverse_append, List.dropWhile_append_of_pos, dropTrailingTrivia]
  intro m hm
  exact ht m (List.mem_reverse.1 hm)

/-- Whether the text ends in the given word and the word starts there. -/
def endsWithWord (word s : List Char) : Bool := isWordAt s (s.length - word.length) word

/-- Trailing trivia aside, the text ends in the word; `b` is the character before the text. -/
def EndsIn (word : List Char) (b : Char) (s : List Char) : Prop :=
  ∃ q, dropTrailingTrivia s = q ++ word ∧ isWord (q.getLastD b) = false

theorem EndsIn.before {word : List Char} (hword : word ≠ []) (hs : Seam t s)
    (h : EndsIn word (s.getLastD b) t) : EndsIn word b (s ++ t) := by
  obtain ⟨q, hq, hb⟩ := h
  refine ⟨s ++ q, ?_, by rwa [getLastD_append]⟩
  rw [dropTrailingTrivia_append hs.mark_append, hq, List.append_assoc]
  rw [hq]
  exact List.append_ne_nil_of_right_ne_nil q hword

theorem not_endsIn {word : List Char} (h : endsWithWord word (dropTrailingTrivia s) = false) :
    ¬EndsIn word ' ' s := by
  rintro ⟨q, hq, hb⟩
  have hword : startsWithWord word word = true :=
    startsWithWord_eq_true.2 ⟨[], (List.append_nil word).symm, Text.stops_nil⟩
  rw [hq, endsWithWord, List.length_append, Nat.add_sub_cancel, isWordAt_append, hword, hb] at h
  cases h

end ViewHierarchy.Source
