import ViewHierarchy.Proofs.Source.Level
import ViewHierarchy.Proofs.Source.Trivia
import ViewHierarchy.Source.Declaration

/-! The readers of struct heads go up to the first brace and no further: whatever comes behind that
brace, they do the same. -/
namespace ViewHierarchy.Source
open Text (afterBlanks? isBlank isWord trim trimLeft)

variable {β : Type} {shape : (List Char → β) → Prop} {w x : List Char}

/-- On a text that goes on with a brace the reader either fails, or gives `g x`, where `x` is what
comes behind the brace. -/
def UpToBrace (shape : (List Char → β) → Prop) (f : List Char → Option β) : Prop :=
  ∀ w, '{' ∉ w → (∀ x, f (w ++ '{' :: x) = none) ∨
    ∃ g, shape g ∧ ∀ x, f (w ++ '{' :: x) = some (g x)

/-- Part of the text before the brace is left. -/
def Leaves (g : List Char → List Char) : Prop := ∃ w, '{' ∉ w ∧ ∀ x, g x = w ++ '{' :: x

theorem leaves_append (hw : '{' ∉ w) : Leaves (w ++ '{' :: ·) := ⟨w, hw, fun _ => rfl⟩

theorem UpToBrace.bind {f : List Char → Option (List Char)} {h : List Char → Option β}
    (hf : UpToBrace Leaves f) (hh : UpToBrace shape h) : UpToBrace shape fun s => (f s).bind h := by
  intro w hw
  rcases hf w hw with hnone | ⟨g, ⟨v, hv, hg⟩, hsome⟩
  · left
    intro x
    simp only [hnone, Option.bind_none]
  · simp only [hsome, Option.bind_some, hg]
    exact hh v hv

theorem dropWhile_brace {p : Char → Bool} (hp : p '{' = false) (w x : List Char) :
    (w ++ '{' :: x).dropWhile p = w.dropWhile p ++ '{' :: x := by
  rw [List.dropWhile_append]
  split
  · next h => rw [List.dropWhile_cons_of_neg (by simp [hp]), List.isEmpty_iff.1 h, List.nil_append]
  · rfl

theorem takeWhile_brace {p : Char → Bool} (hp : p '{' = false) (w x : List Char) :
    (w ++ '{' :: x).takeWhile p = w.takeWhile p := by
  induction w with
  | nil => simp [hp]
  | cons c w ih => rw [List.cons_append, List.takeWhile_cons, List.takeWhile_cons, ih]

theorem trimLeft_brace (w x : List Char) : trimLeft (w ++ '{' :: x) = trimLeft w ++ '{' :: x :=
  dropWhile_brace (by decide) w x

theorem notMem_dropWhile {p : Char → Bool} (h : '{' ∉ w) : '{' ∉ w.dropWhile p :=
  fun hm => h ((List.dropWhile_sublist p).subset hm)

theorem notMem_trimLeft (h : '{' ∉ w) : '{' ∉ trimLeft w := notMem_dropWhile h

theorem notMem_tail {c : Char} {t : List Char} (h : '{' ∉ w) (ht : trimLeft w = c :: t) :
    '{' ∉ t := by
  intro hm
  apply notMem_trimLeft h
  rw [ht]
  exact List.mem_cons_of_mem _ hm

theorem upToBrace_afterWord {word : List Char} (hword : '{' ∉ word) (before : Char) :
    UpToBrace Leaves (afterWord? word before) := by
  intro w hw
  by_cases h : (!isWord before && word.isPrefixOf w) = true
  · have hle : word.length ≤ w.length :=
      (List.isPrefixOf_iff_prefix.1 (Bool.and_eq_true _ _ ▸ h).2).length_le
    have hdrop : '{' ∉ w.drop word.length := fun hm => hw (List.mem_of_mem_drop hm)
    refine .inr ⟨_, leaves_append hdrop, ?_⟩
    intro x
    rw [afterWord?, isPrefixOf_append_cons hword, if_pos h, List.drop_append_of_le_length hle]
  · left
    intro x
    rw [afterWord?, isPrefixOf_append_cons hword, if_neg h]

theorem upToBrace_afterBlanks : UpToBrace Leaves afterBlanks? := by
  intro w hw
  cases w with
  | nil => exact .inl fun x => rfl
  | cons c w =>
    rw [List.mem_cons, not_or] at hw
    by_cases hc : isBlank c = true
    · refine .inr ⟨_, leaves_append (notMem_trimLeft hw.2), ?_⟩
      intro x
      rw [List.cons_append, afterBlanks?, if_pos hc, trimLeft_brace]
    · left
      intro x
      rw [List.cons_append, afterBlanks?, if_neg hc]

theorem upToBrace_afterColon : UpToBrace Leaves afterColon? := by
  intro w hw
  simp only [afterColon?, trimLeft_brace]
  cases h : trimLeft w with
  | nil => exact .inl fun x => rfl
  | cons c t =>
    by_cases hc : c = ':'
    · subst hc
      refine .inr ⟨_, leaves_append (notMem_trimLeft (notMem_tail hw h)), ?_⟩
      intro x
      simp only [List.cons_append, trimLeft_brace]
    · left
      intro x
      simp [hc]

theorem upToBrace_afterGenerics : UpToBrace Leaves afterGenerics? := by
  intro w hw
  induction w with
  | nil => exact .inl fun x => by simp [afterGenerics?]
  | cons c w ih =>
    rw [List.mem_cons, not_or] at hw
    simp only [List.cons_append, afterGenerics?, if_neg (Ne.symm hw.1)]
    split
    · rcases upToBrace_afterColon w hw.2 with hnone | ⟨g, hg, hsome⟩
      · simpa only [hnone, Option.none_or] using ih hw.2
      · exact .inr ⟨g, hg, fun x => by rw [hsome, Option.some_or]⟩
    · exact ih hw.2

theorem upToBrace_afterHeadColon : UpToBrace Leaves afterHeadColon? := by
  intro w hw
  simp only [afterHeadColon?, trimLeft_brace]
  cases h : trimLeft w with
  | nil => exact upToBrace_afterColon w hw
  | cons c t =>
    by_cases hc : c = '<'
    · subst hc
      exact upToBrace_afterGenerics t (notMem_tail hw h)
    · simpa [hc] using upToBrace_afterColon w hw

/-- The head ends at the brace. -/
def IsHead (g : List Char → Header) : Prop :=
  ∃ name conformances, ∀ x, g x = ⟨name, conformances, x⟩

theorem upToBrace_headerNamed (name : List Char) : UpToBrace IsHead (headerNamed? name) := by
  intro w hw
  have hall : ∀ c ∈ w, (c != '{') = true := fun c hc => bne_iff_ne.2 fun h => hw (h ▸ hc)
  have hdrop : ∀ x, (w ++ '{' :: x).dropWhile (· != '{') = '{' :: x := by
    intro x
    rw [List.dropWhile_append_of_pos hall, List.dropWhile_cons_of_neg (by simp)]
  have htake : ∀ x, (w ++ '{' :: x).takeWhile (· != '{') = w := by
    intro x
    rw [List.takeWhile_append_of_pos hall, List.takeWhile_cons_of_neg (by simp), List.append_nil]
  cases name with
  | nil => exact .inl fun x => rfl
  | cons c name =>
    refine .inr ⟨fun x => ⟨c :: name, trim w, x⟩, ⟨_, _, fun x => rfl⟩, ?_⟩
    intro x
    simp only [headerNamed?, hdrop, htake]

theorem upToBrace_header (before : Char) : UpToBrace IsHead (header? before) := by
  refine (upToBrace_afterWord (by decide) before).bind (upToBrace_afterBlanks.bind ?_)
  intro w hw
  simp only [takeWhile_brace (p := isWord) (by decide), dropWhile_brace (p := isWord) (by decide)]
  exact (upToBrace_afterHeadColon.bind (upToBrace_headerNamed _)) _ (notMem_dropWhile hw)

theorem headers_found {before c : Char} {rest : List Char} {header : Header}
    (h : header? before (c :: rest) = some header) :
    headers before (c :: rest) = header :: headers '{' header.after := by
  rw [headers]
  split
  · next found hf =>
    cases hf.symm.trans h
    rfl
  · next hf => cases hf.symm.trans h

theorem headers_skip {before c : Char} {rest : List Char}
    (h : header? before (c :: rest) = none) :
    headers before (c :: rest) = headers c rest := by
  rw [headers]
  split
  · next found hf => cases hf.symm.trans h
  · rfl

end ViewHierarchy.Source
