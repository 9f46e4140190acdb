import ViewHierarchy.Proofs.Source.Header
import ViewHierarchy.Proofs.Source.Extraction

/-! The names that a source declares are words, and every body that was found is declared. -/
namespace ViewHierarchy.Source
open Text (isBlank isWord)

variable {source : List Char} {name : String}

/-- A text made of word characters, of which there is one at least. -/
structure IsWordText (s : List Char) : Prop where
  ne_nil : s ≠ []
  word : ∀ c ∈ s, isWord c = true

theorem headerNamed?_name {s : List Char} {word : List Char} {header : Header}
    (h : headerNamed? word s = some header) : word ≠ [] ∧ header.name = word := by
  rw [headerNamed?.eq_def] at h
  split at h
  · cases h
    exact ⟨List.cons_ne_nil _ _, rfl⟩
  · cases h

theorem header?_name {before : Char} {s : List Char} {header : Header}
    (h : header? before s = some header) : IsWordText header.name := by
  obtain ⟨s₁, -, h⟩ := Option.bind_eq_some_iff.1 h
  obtain ⟨s₂, -, h⟩ := Option.bind_eq_some_iff.1 h
  obtain ⟨s₃, -, h⟩ := Option.bind_eq_some_iff.1 h
  obtain ⟨hne, hname⟩ := headerNamed?_name h
  rw [hname]
  exact ⟨hne, List.all_eq_true.1 List.all_takeWhile⟩

theorem headers_name {before : Char} {s : List Char} {header : Header}
    (h : header ∈ headers before s) : IsWordText header.name := by
  fun_induction headers before s with
  | case1 => cases h
  | case2 before c rest found hf hlt ih =>
    rcases List.mem_cons.1 h with rfl | h
    · exact header?_name hf
    · exact ih h
  | case3 before c rest hf ih => exact ih h

theorem Header.finding_name {header : Header} {total start length : Nat}
    (h : header.finding total = .body name start length) : name = String.ofList header.name := by
  unfold Header.finding at h
  split at h
  · cases h
  · split at h
    · cases h
    · split at h
      · cases h
      · cases h
        rfl

theorem isWordText_of_mem_names (h : name ∈ (declarations source).names) :
    IsWordText name.toList := by
  obtain ⟨e, he, rfl⟩ := List.mem_map.1 h
  obtain ⟨start, length, hf, -⟩ := mem_declarations he
  obtain ⟨header, hheader, hf⟩ := List.mem_map.1 hf
  rw [Header.finding_name hf, String.toList_ofList]
  exact headers_name (List.mem_filter.1 hheader).1

theorem mem_names_insert {ds : Declarations} {other body : String} :
    name ∈ (ds.insert other body).names ↔ name ∈ ds.names ∨ name = other := by
  rw [Declarations.names_insert]
  split
  · next h =>
    constructor
    · exact .inl
    · rintro (h' | rfl)
      · exact h'
      · exact h
  · rw [List.mem_append, List.mem_singleton]

/-- A name stays declared, and a body that was found declares its name. -/
theorem mem_names_foldl {found : List Finding} {ds : Declarations}
    (h : name ∈ ds.names ∨ ∃ start length, .body name start length ∈ found) :
    name ∈ (found.foldl (record source) ds).names := by
  induction found generalizing ds with
  | nil =>
    rcases h with h | ⟨start, length, h⟩
    · exact h
    · cases h
  | cons finding rest ih =>
    apply ih
    rcases h with h | ⟨start, length, h⟩
    · left
      cases finding with
      | unclosed | withoutBody | bodyUnclosed => exact h
      | body other start length => exact mem_names_insert.2 (.inl h)
    · rcases List.mem_cons.1 h with rfl | h
      · exact .inl (mem_names_insert.2 (.inr rfl))
      · exact .inr ⟨start, length, h⟩

theorem mem_names_of_header {header : Header} {start length : Nat}
    (hh : header ∈ headers ' ' (mask source)) (hview : header.isView = true)
    (hf : header.finding source.length = .body name start length) :
    name ∈ (declarations source).names := by
  rw [declarations_eq]
  refine mem_names_foldl (.inr ⟨start, length, List.mem_map.2 ⟨header, ?_, ?_⟩⟩)
  · exact List.mem_filter.2 ⟨hh, hview⟩
  · rw [length_mask]
    exact hf

/-- Without the letters of the word there is no struct head. -/
theorem headers_without {letter b : Char} {s : List Char} (hletter : letter ∈ "struct".toList)
    (h : letter ∉ s) : headers b s = [] := by
  induction s generalizing b with
  | nil => rw [headers]
  | cons c s ih =>
    have hnone : header? b (c :: s) = none := by
      rw [← Option.not_isSome_iff_eq_none]
      intro hsome
      obtain ⟨header, hheader⟩ := Option.isSome_iff_exists.1 hsome
      obtain ⟨after, hafter, -⟩ := Option.bind_eq_some_iff.1 hheader
      have hword := (Option.ite_none_right_eq_some.1 hafter).1
      rw [Bool.and_eq_true] at hword
      exact h ((List.isPrefixOf_iff_prefix.1 hword.2).mem hletter)
    rw [headers_skip hnone, ih fun hs => h (List.mem_cons_of_mem c hs)]

/-- A source that starts with a struct head and has no letter t behind it. -/
theorem findings_of_header? {header : Header} (hhead : header? ' ' (mask source) = some header)
    (hview : header.isView = true) (hafter : 't' ∉ header.after) :
    findings source = [header.finding (mask source).length] := by
  have hheaders : headers ' ' (mask source) = [header] := by
    cases hmask : mask source with
    | nil =>
      rw [hmask] at hhead
      cases hhead
    | cons c rest =>
      rw [hmask] at hhead
      rw [headers_found hhead, headers_without (by decide) hafter]
  rw [findings, hheaders, List.filter_cons_of_pos hview]
  rfl

/-- A source that declares a view. -/
def rowText : String := "struct Row:View{var body:some View{X}}"

theorem findings_rowText : findings rowText.toList = [.body "Row" 35 1] := by
  have hhead : header? ' ' (mask rowText.toList) =
      some ⟨"Row".toList, "View".toList, "var body:some View\x7bX\x7d\x7d".toList⟩ := by rfl
  rw [findings_of_header? hhead (by decide) (by decide)]
  rfl

theorem declarations_rowText :
    declarations rowText.toList = Declarations.empty.insert "Row" "X" := by
  rw [declarations_eq, findings_rowText]
  rfl

theorem mem_names_rowText : "Row" ∈ (declarations rowText.toList).names := by
  rw [declarations_rowText]
  exact mem_names_insert.2 (.inr rfl)

/-- White space declares nothing. -/
theorem declarations_blank (h : ∀ c ∈ source, isBlank c = true) : declarations source = .empty := by
  have hplain : Plain source := by
    intro c hc
    constructor
    · rintro rfl
      exact absurd (h _ hc) (by decide)
    · rintro rfl
      exact absurd (h _ hc) (by decide)
  have hletter : 's' ∉ source := by
    intro hs
    exact absurd (h _ hs) (by decide)
  rw [declarations_eq, findings, mask, hplain.mark, masked_code,
    headers_without (by decide) hletter]
  rfl

end ViewHierarchy.Source
