import ViewHierarchy.Proofs.Text.Blank

/-! Lines: the characters that end one, texts that stand on one line, and a text cut into lines. -/
namespace ViewHierarchy.Text

/-- The characters at which a text is cut into lines. -/
def isLineBreak (c : Char) : Bool :=
  let n := c.toNat
  decide (10 ≤ n ∧ n ≤ 13) || decide (28 ≤ n ∧ n ≤ 30) || n == 0x85 || n == 0x2028 || n == 0x2029

/-- A text without line breaks. -/
def IsLine (s : List Char) : Prop := ∀ c ∈ s, isLineBreak c = false

instance (s : List Char) : Decidable (IsLine s) :=
  decidable_of_iff (s.all fun c => !isLineBreak c) (by simp [IsLine])

variable {s t : List Char} {c : Char}

theorem isLine_nil : IsLine [] := List.forall_mem_nil _

theorem IsLine.append (hs : IsLine s) (ht : IsLine t) : IsLine (s ++ t) :=
  List.forall_mem_append.2 ⟨hs, ht⟩

theorem IsLine.cons (hc : isLineBreak c = false) (hs : IsLine s) : IsLine (c :: s) :=
  List.forall_mem_cons.2 ⟨hc, hs⟩

theorem isBlank_of_isLineBreak (h : isLineBreak c = true) : isBlank c = true := by
  simp only [isLineBreak, isBlank, Bool.or_eq_true, decide_eq_true_eq, beq_iff_eq] at h ⊢
  omega

theorem isLineBreak_of_not_blank (h : isBlank c = false) : isLineBreak c = false := by
  rw [← Bool.not_eq_true] at h ⊢
  exact mt isBlank_of_isLineBreak h

theorem isLine_of_isWord (h : ∀ c ∈ s, isWord c = true) : IsLine s :=
  fun c hc => isLineBreak_of_not_blank (isBlank_of_isWord (h c hc))

theorem isLine_joinWith {sep : List Char} {pieces : List (List Char)} (hsep : IsLine sep)
    (h : ∀ piece ∈ pieces, IsLine piece) : IsLine (joinWith sep pieces) := by
  fun_induction joinWith sep pieces with
  | case1 => exact isLine_nil
  | case2 w => exact h w List.mem_cons_self
  | case3 w w' rest ih =>
    obtain ⟨hw, hrest⟩ := List.forall_mem_cons.1 h
    exact (hw.append hsep).append (ih hrest)

theorem isBlank_of_mem_words {word w : List Char} (hword : ∀ c ∈ word, isBlank c = false)
    (h : w ∈ wordsFrom word s) : ∀ c ∈ w, isBlank c = false := by
  have hreverse : ∀ c ∈ word.reverse, isBlank c = false :=
    fun c hc => hword c (List.mem_reverse.1 hc)
  fun_induction wordsFrom word s with
  | case1 => cases h
  | case2 word hne =>
    rw [List.mem_singleton.1 h]
    exact hreverse
  | case3 word c rest hc hempty ih =>
    exact ih (List.forall_mem_nil _) h (List.forall_mem_nil _)
  | case4 word c rest hc hne ih =>
    rcases List.mem_cons.1 h with rfl | h
    · exact hreverse
    · exact ih (List.forall_mem_nil _) h (List.forall_mem_nil _)
  | case5 word c rest hc ih =>
    have hword' : ∀ d ∈ c :: word, isBlank d = false :=
      List.forall_mem_cons.2 ⟨Bool.not_eq_true _ ▸ hc, hword⟩
    exact ih hword' h fun d hd => hword' d (List.mem_reverse.1 hd)

/-- Whatever white space is in a text, its words fit on one line. -/
theorem isLine_collapse (s : List Char) : IsLine (collapse s) := by
  apply isLine_joinWith (IsLine.cons (by decide) isLine_nil)
  intro w hw c hc
  exact isLineBreak_of_not_blank (isBlank_of_mem_words (List.forall_mem_nil _) hw c hc)

/-- The lines of a text, of which `line` holds what was read of the first, reversed. A carriage
return and a line feed end a line together. -/
def linesFrom (line : List Char) : List Char → List (List Char)
  | [] => if line.isEmpty then [] else [line.reverse]
  | '\r' :: '\n' :: rest => line.reverse :: linesFrom [] rest
  | c :: rest =>
    if isLineBreak c then line.reverse :: linesFrom [] rest else linesFrom (c :: line) rest

def lines (s : List Char) : List (List Char) := linesFrom [] s

theorem linesFrom_line (h : IsLine s) (line t : List Char) :
    linesFrom line (s ++ t) = linesFrom (s.reverse ++ line) t := by
  induction s generalizing line with
  | nil => rfl
  | cons c s ih =>
    obtain ⟨hc, hs⟩ := List.forall_mem_cons.1 h
    have hne : c ≠ '\r' := by
      rintro rfl
      cases hc
    rw [List.cons_append, linesFrom]
    · rw [if_neg (by rw [hc]; exact Bool.false_ne_true), ih hs, List.reverse_cons,
        List.append_assoc, List.singleton_append]
    · intro rest hcr
      exact absurd hcr hne

/-- Lines that a line feed ends each are found again. -/
theorem lines_flatMap {ls : List (List Char)} (h : ∀ l ∈ ls, IsLine l) :
    lines (ls.flatMap (· ++ ['\n'])) = ls := by
  induction ls with
  | nil => rfl
  | cons l ls ih =>
    obtain ⟨hl, hls⟩ := List.forall_mem_cons.1 h
    have hend : ∀ rest, linesFrom l.reverse ('\n' :: rest) = l :: lines rest := by
      intro rest
      rw [linesFrom, if_pos (by decide), List.reverse_reverse, lines]
      intro rest hcr
      cases hcr
    rw [List.flatMap_cons, List.append_assoc, lines, linesFrom_line hl, List.append_nil,
      List.singleton_append, hend, ih hls]

end ViewHierarchy.Text
