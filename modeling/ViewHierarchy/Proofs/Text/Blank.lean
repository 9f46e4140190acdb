import ViewHierarchy.Text.Blank
import ViewHierarchy.Text.Word

/-! Texts cut where a class of characters ends, and the white space around them. -/
namespace ViewHierarchy.Text

/-- The text does not go on with a character of the class. -/
def Stops (p : Char → Bool) (s : List Char) : Prop := ∀ c ∈ s.head?, p c = false

variable {p : Char → Bool} {c : Char} {s t : List Char}

/-- What is in a class differs from what is not. -/
theorem ne_of_class {α : Type} {p : α → Bool} {c d : α} (hc : p c = true) (hd : p d = false) :
    c ≠ d := by
  rintro rfl
  exact Bool.false_ne_true (hd.symm.trans hc)

theorem stops_nil : Stops p [] := by
  intro c hc
  cases hc

theorem stops_cons (h : p c = false) (s : List Char) : Stops p (c :: s) := by
  intro d hd
  cases hd
  exact h

theorem stops_of_forall (h : ∀ c ∈ s, p c = false) : Stops p s := by
  intro c hc
  exact h c (List.mem_of_mem_head? hc)

theorem Stops.append (hs : Stops p s) (ht : Stops p t) : Stops p (s ++ t) := by
  cases s with
  | nil => exact ht
  | cons c s => exact stops_cons (hs c rfl) _

theorem Stops.extend (hs : Stops p s) (hne : s ≠ []) (t : List Char) : Stops p (s ++ t) := by
  cases s with
  | nil => exact absurd rfl hne
  | cons c s => exact stops_cons (hs c rfl) _

theorem Stops.takeWhile_append (ht : Stops p t) (hs : ∀ c ∈ s, p c = true) :
    (s ++ t).takeWhile p = s := by
  rw [List.takeWhile_append_of_pos hs]
  cases t with
  | nil => simp
  | cons c t => simp [ht c rfl]

theorem Stops.dropWhile_append (ht : Stops p t) (hs : ∀ c ∈ s, p c = true) :
    (s ++ t).dropWhile p = t := by
  rw [List.dropWhile_append_of_pos hs]
  cases t with
  | nil => rfl
  | cons c t => simp [ht c rfl]

theorem trimLeft_cons (h : isBlank c = true) (s : List Char) : trimLeft (c :: s) = trimLeft s := by
  simp [trimLeft, h]

theorem trimLeft_blank_append (h : ∀ c ∈ s, isBlank c = true) (t : List Char) :
    trimLeft (s ++ t) = trimLeft t :=
  List.dropWhile_append_of_pos h

theorem trimLeft_of_stops (h : Stops isBlank s) : trimLeft s = s :=
  h.dropWhile_append (List.forall_mem_nil _)

theorem trimLeft_kept (h : isBlank c = false) (s : List Char) : trimLeft (c :: s) = c :: s :=
  trimLeft_of_stops (stops_cons h s)

theorem Stops.of_prefix {w : List Char} (h : Stops p s) (hw : w <+: s) : Stops p w := by
  obtain ⟨t, rfl⟩ := hw
  cases w with
  | nil => exact stops_nil
  | cons c w => exact stops_cons (h c rfl) w

theorem trimRight_isPrefix (s : List Char) : trimRight s <+: s := by
  rw [← List.reverse_suffix, trimRight, List.reverse_reverse]
  exact List.dropWhile_suffix _

theorem trimRight_append (h : Stops isBlank s.reverse) (t : List Char) :
    trimRight (s ++ t) = s ++ trimRight t := by
  have hs : s.reverse.dropWhile isBlank = s.reverse := trimLeft_of_stops h
  rw [trimRight, List.reverse_append, List.dropWhile_append, hs]
  split
  · next hnil =>
    rw [List.reverse_reverse, trimRight, List.isEmpty_iff.1 hnil, List.reverse_nil, List.append_nil]
  · rw [List.reverse_append, List.reverse_reverse, trimRight]

theorem trimRight_append_cons (h : isBlank c = false) (s t : List Char) :
    trimRight (s ++ c :: t) = s ++ c :: trimRight t := by
  have hs : Stops isBlank (s ++ [c]).reverse := by
    rw [List.reverse_append]
    exact stops_cons h _
  rw [List.append_cons, trimRight_append hs, ← List.append_cons]

theorem trimRight_append_blank (h : ∀ c ∈ t, isBlank c = true) (s : List Char) :
    trimRight (s ++ t) = trimRight s := by
  have ht : ∀ c ∈ t.reverse, isBlank c = true := fun c hc => h c (List.mem_reverse.1 hc)
  rw [trimRight, List.reverse_append, List.dropWhile_append_of_pos ht, trimRight]

/-- A text up to the first character outside of a class. -/
theorem exists_dropWhile (p : Char → Bool) (s : List Char) :
    ∃ w, s = w ++ s.dropWhile p ∧ ∀ c ∈ w, p c = true :=
  ⟨s.takeWhile p, List.takeWhile_append_dropWhile.symm, List.all_eq_true.1 List.all_takeWhile⟩

theorem exists_trimLeft (s : List Char) :
    ∃ w, s = w ++ trimLeft s ∧ ∀ c ∈ w, isBlank c = true :=
  exists_dropWhile isBlank s

theorem exists_trimRight (s : List Char) :
    ∃ w, s = trimRight s ++ w ∧ ∀ c ∈ w, isBlank c = true := by
  obtain ⟨w, hs, hw⟩ := exists_trimLeft s.reverse
  refine ⟨w.reverse, ?_, fun c hc => hw c (List.mem_reverse.1 hc)⟩
  rw [trimRight, ← trimLeft, ← List.reverse_append, ← hs, List.reverse_reverse]

theorem stops_dropWhile (p : Char → Bool) (s : List Char) : Stops p (s.dropWhile p) := by
  intro c hc
  have hhead := List.head?_dropWhile_not p s
  rw [Option.mem_def.1 hc] at hhead
  exact hhead

theorem trimRight_idem (s : List Char) : trimRight (trimRight s) = trimRight s := by
  have hright : ∀ t, trimRight t = (trimLeft t.reverse).reverse := fun _ => rfl
  have hstops : Stops isBlank (trimLeft s.reverse) := stops_dropWhile isBlank s.reverse
  rw [hright, hright, List.reverse_reverse, trimLeft_of_stops hstops]

theorem trim_idem (s : List Char) : trim (trim s) = trim s := by
  have hleft : Stops isBlank (trimLeft s) := stops_dropWhile isBlank s
  rw [trim, trim, trimLeft_of_stops (hleft.of_prefix (trimRight_isPrefix _)), trimRight_idem]

theorem trimLeft_append (h : trimLeft s ≠ []) (t : List Char) :
    trimLeft (s ++ t) = trimLeft s ++ t := by
  rw [trimLeft] at h ⊢
  rw [List.dropWhile_append, if_neg fun hnil => h (List.isEmpty_iff.1 hnil), trimLeft]

theorem trimLeft_append_kept (h : isBlank c = false) (s t : List Char) :
    trimLeft (s ++ c :: t) = trimLeft s ++ c :: t := by
  by_cases hs : trimLeft s = []
  · obtain ⟨w, hw, hblank⟩ := exists_trimLeft s
    rw [hs, List.append_nil] at hw
    subst hw
    rw [hs, trimLeft, (stops_cons h t).dropWhile_append hblank, List.nil_append]
  · exact trimLeft_append hs _

/-- A text with no white space at its ends is left as it is. -/
theorem trim_of_stops (h : Stops isBlank s) (h' : Stops isBlank s.reverse) : trim s = s := by
  rw [trim, trimLeft_of_stops h, trimRight, ← trimLeft, trimLeft_of_stops h', List.reverse_reverse]

theorem trim_cons (h : isBlank c = false) (s : List Char) : trim (c :: s) = c :: trimRight s := by
  rw [trim, trimLeft_kept h]
  exact trimRight_append_cons h [] s

theorem wordsFrom_append (h : ∀ c ∈ s, isBlank c = false) (word t : List Char) :
    wordsFrom word (s ++ t) = wordsFrom (s.reverse ++ word) t := by
  induction s generalizing word with
  | nil => rfl
  | cons c s ih =>
    obtain ⟨hc, hs⟩ := List.forall_mem_cons.1 h
    rw [List.cons_append, wordsFrom, hc, if_neg Bool.false_ne_true, ih hs, List.reverse_cons,
      List.append_assoc, List.singleton_append]

theorem words_blank (h : ∀ c ∈ s, isBlank c = true) (t : List Char) : words (s ++ t) = words t := by
  induction s with
  | nil => rfl
  | cons c s ih =>
    obtain ⟨hc, hs⟩ := List.forall_mem_cons.1 h
    rw [List.cons_append, words, wordsFrom, if_pos hc]
    exact ih hs

theorem collapse_blank (h : ∀ c ∈ s, isBlank c = true) (t : List Char) :
    collapse (s ++ t) = collapse t := by
  rw [collapse, words_blank h, collapse]

theorem collapse_trimLeft (s : List Char) : collapse (trimLeft s) = collapse s := by
  obtain ⟨w, hs, hw⟩ := exists_trimLeft s
  rw [← collapse_blank hw, ← hs]

theorem wordsFrom_blank (h : ∀ c ∈ t, isBlank c = true) (word : List Char) :
    wordsFrom word (s ++ t) = wordsFrom word s := by
  have hnil : ∀ u, (∀ c ∈ u, isBlank c = true) → wordsFrom [] u = [] := by
    intro u hu
    rw [← List.append_nil u]
    exact words_blank hu []
  fun_induction wordsFrom word s with
  | case1 word hword =>
    rw [List.isEmpty_iff.1 hword]
    exact hnil t h
  | case2 word hword =>
    cases t with
    | nil => rw [List.append_nil, wordsFrom, if_neg hword]
    | cons c t =>
      obtain ⟨hc, ht⟩ := List.forall_mem_cons.1 h
      rw [List.nil_append, wordsFrom, if_pos hc, if_neg hword, hnil t ht]
  | case3 word c rest hc hword ih => rw [List.cons_append, wordsFrom, if_pos hc, if_pos hword, ih]
  | case4 word c rest hc hword ih => rw [List.cons_append, wordsFrom, if_pos hc, if_neg hword, ih]
  | case5 word c rest hc ih => rw [List.cons_append, wordsFrom, if_neg hc, ih]

/-- White space behind a text adds no word. -/
theorem collapse_append_blank (h : ∀ c ∈ t, isBlank c = true) (s : List Char) :
    collapse (s ++ t) = collapse s := by
  rw [collapse, words, wordsFrom_blank h, collapse, words]

/-- One word is left of a word. -/
theorem collapse_word (hne : s ≠ []) (hs : ∀ c ∈ s, isBlank c = false) : collapse s = s := by
  have hword := wordsFrom_append hs [] []
  rw [List.append_nil, List.append_nil, wordsFrom, if_neg (by simpa using hne),
    List.reverse_reverse] at hword
  rw [collapse, words, hword, joinWith]

/-- The code points of white space. -/
def blankCodes : List Nat :=
  List.range' 9 5 ++ (List.range' 28 5 ++ (List.range' 0x2000 11 ++
    [0x85, 0xA0, 0x1680, 0x2028, 0x2029, 0x202F, 0x205F, 0x3000]))

theorem mem_blankCodes {c : Char} (h : isBlank c = true) : c.toNat ∈ blankCodes := by
  simp only [isBlank, Bool.or_eq_true, decide_eq_true_eq, beq_iff_eq] at h
  simp only [blankCodes, List.mem_append, List.mem_range'_1, List.mem_cons, List.not_mem_nil,
    or_false]
  omega

theorem isWord_of_isBlank {c : Char} (h : isBlank c = true) : isWord c = false := by
  have hcodes : (blankCodes.all fun n => !inIntervals alphanumericIntervals n && n != '_'.toNat) =
      true := by decide +kernel
  have hc := List.all_eq_true.1 hcodes _ (mem_blankCodes h)
  rw [Bool.and_eq_true, Bool.not_eq_true', bne_iff_ne, ne_eq, Char.toNat_inj] at hc
  rw [isWord, isAlphanumeric, hc.1, Bool.false_or]
  exact beq_false_of_ne hc.2

/-- A class that holds no white space. -/
theorem isBlank_of_class (hp : ∀ c, isBlank c = true → p c = false) (hc : p c = true) :
    isBlank c = false := by
  rw [← Bool.not_eq_true]
  intro hblank
  exact Bool.false_ne_true ((hp c hblank).symm.trans hc)

theorem isBlank_of_isWord {c : Char} (h : isWord c = true) : isBlank c = false :=
  isBlank_of_class (fun _ => isWord_of_isBlank) h

end ViewHierarchy.Text
