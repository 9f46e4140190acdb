import Mathlib.Data.List.Basic
import ViewHierarchy.Proofs.Declarations
import ViewHierarchy.Proofs.Source.Naming
import ViewHierarchy.Proofs.Source.OwnBody

/-! Sources joined by a line break. What the first one declares is found as if nothing came behind
it, and what the second one declares as if nothing came before it. -/
namespace ViewHierarchy.Source
open Text (afterBlanks? isBlank isWord)

variable {b c : Char} {s t x : List Char}

/-- Wherever the word struct stands, a brace opens behind it; `b` is the character before the
text. -/
def StructsOpen (b : Char) (s : List Char) : Prop :=
  ∀ p t, s = p ++ t → isWord (p.getLastD b) = false → startsWithWord "struct".toList t = true →
    '{' ∈ t

theorem StructsOpen.behind {p : List Char} (h : StructsOpen b (p ++ t)) :
    StructsOpen (p.getLastD b) t := by
  intro q u hs hb hu
  refine h (p ++ q) u ?_ ?_ hu
  · rw [hs, List.append_assoc]
  · rwa [getLastD_append]

theorem header?_eq_none_of_line (h : StructsOpen b s) (hs : '{' ∉ s) (x : List Char) :
    header? b (s ++ '\n' :: x) = none := by
  cases hh : header? b (s ++ '\n' :: x) with
  | none => rfl
  | some header =>
    obtain ⟨t, ht, hh⟩ := Option.bind_eq_some_iff.1 hh
    obtain ⟨u, hu, -⟩ := Option.bind_eq_some_iff.1 hh
    rw [afterWord?, Option.ite_none_right_eq_some, Bool.and_eq_true, Bool.not_eq_true',
      List.isPrefixOf_iff_prefix] at ht
    obtain ⟨⟨hb, hword⟩, ht⟩ := ht
    obtain ⟨v, rfl⟩ := prefix_of_notMem (by decide) hword
    rw [List.append_assoc, List.drop_left' rfl] at ht
    cases ht
    have hv : (v.head?.any isWord) = false := by
      cases v with
      | nil => rfl
      | cons c v =>
        rw [List.cons_append, afterBlanks?, Option.ite_none_right_eq_some] at hu
        exact Text.isWord_of_isBlank hu.1
    refine absurd (h [] _ rfl hb ?_) hs
    rw [startsWithWord, Bool.and_eq_true, List.isPrefixOf_iff_prefix]
    exact ⟨List.prefix_append _ _, by simpa using hv⟩

def Header.extend (x : List Char) (header : Header) : Header :=
  { header with after := header.after ++ x }

@[simp] theorem Header.name_extend (x : List Char) (header : Header) :
    (header.extend x).name = header.name := rfl

@[simp] theorem Header.after_extend (x : List Char) (header : Header) :
    (header.extend x).after = header.after ++ x := rfl

/-- The heads of two texts with a line break between them. -/
theorem headers_line {b : Char} {s : List Char} (h : StructsOpen b s) (x : List Char) :
    headers b (s ++ '\n' :: x) =
      (headers b s).map (Header.extend ('\n' :: x)) ++ headers '\n' x := by
  match s with
  | [] =>
    have hline : header? b ('\n' :: x) = none := header?_eq_none_of_line h List.not_mem_nil x
    rw [List.nil_append, headers_skip hline, headers, List.map_nil, List.nil_append]
  | c :: rest =>
    have hskip (hnone : header? b (c :: rest) = none)
        (hline : header? b (c :: (rest ++ '\n' :: x)) = none) :
        headers b (c :: rest ++ '\n' :: x) =
          (headers b (c :: rest)).map (Header.extend ('\n' :: x)) ++ headers '\n' x := by
      rw [List.cons_append, headers_skip hline, headers_skip hnone]
      exact headers_line (h.behind (p := [c])) x
    by_cases hs : '{' ∈ c :: rest
    · obtain ⟨w, y, hwy, hw⟩ := List.eq_append_cons_of_mem hs
      rcases upToBrace_header b w hw with hnone | ⟨g, ⟨name, conformances, hg⟩, hsome⟩
      · apply hskip
        · rw [hwy]
          exact hnone y
        · rw [← List.cons_append, hwy, List.append_assoc]
          exact hnone _
      · have hfound : header? b (c :: rest) = some ⟨name, conformances, y⟩ := by
          rw [hwy, hsome, hg]
        have hline : header? b (c :: (rest ++ '\n' :: x)) =
            some ⟨name, conformances, y ++ '\n' :: x⟩ := by
          rw [← List.cons_append, hwy, List.append_assoc, List.cons_append, hsome, hg]
        have hy : StructsOpen '{' y := by
          rw [hwy, List.append_cons] at h
          simpa [getLastD_append] using h.behind
        have hlt : y.length < (c :: rest).length := by
          rw [hwy]
          simp only [List.length_append, List.length_cons]
          omega
        rw [List.cons_append, headers_found hline, headers_found hfound, List.map_cons,
          List.cons_append]
        exact congrArg _ (headers_line hy x)
    · apply hskip
      · cases hh : header? b (c :: rest) with
        | none => rfl
        | some header => exact absurd ((header?_suffix hh).mem List.mem_cons_self) hs
      · rw [← List.cons_append]
        exact header?_eq_none_of_line h hs x
termination_by s.length
decreasing_by
  · exact Nat.lt_succ_self rest.length
  · exact hlt

theorem headers_before {b' : Char} (h : isWord b = isWord b') (s : List Char) :
    headers b s = headers b' s := by
  cases s with
  | nil => rw [headers, headers]
  | cons c rest =>
    have hhead : header? b (c :: rest) = header? b' (c :: rest) := by
      rw [header?, header?, afterWord?, afterWord?, h]
    cases hfound : header? b (c :: rest) with
    | none => rw [headers_skip hfound, headers_skip (hhead ▸ hfound)]
    | some header => rw [headers_found hfound, headers_found (hhead ▸ hfound)]

/-- More text behind a struct that closes does not change what it leads to. -/
theorem Header.finding_extend {header : Header} {inner rest : List Char} (total : Nat)
    (hcode : IsCode (header.after ++ x))
    (h : enclosed? ('{' :: header.after) = some (inner, rest)) :
    (header.extend x).finding (total + x.length) = header.finding total := by
  obtain ⟨hafter, hb⟩ := hcode.append.1.enclosed?_curly_iff.1 h
  have hx : enclosed? ('{' :: (header.extend x).after) = some (inner, rest ++ x) := by
    refine hcode.enclosed?_curly_iff.2 ⟨?_, hb⟩
    simp [hafter]
  cases hown : ownBody? 0 '{' inner with
  | none =>
    rw [Header.finding_withoutBody h hown, Header.finding_withoutBody hx hown, Header.name_extend]
  | some inside =>
    obtain ⟨p, body, more, rfl, rfl, hbody⟩ := hb.closes_ownBody hown
    rw [Header.finding_ownBody hcode.append.1 h hbody hown,
      Header.finding_ownBody hcode hx hbody hown, Header.name_extend, Header.after_extend,
      List.length_append, Nat.add_sub_add_right]

/-- The finding with its body further behind. -/
def Finding.shift (k : Nat) : Finding → Finding
  | .body name start length => .body name (k + start) length
  | finding => finding

theorem Header.finding_shift {header : Header} {total : Nat} (h : header.after.length ≤ total)
    (k : Nat) : header.finding (k + total) = (header.finding total).shift k := by
  unfold Header.finding
  split
  · rfl
  · split
    · rfl
    · split
      · rfl
      · rw [Finding.shift, Nat.add_sub_assoc h, Nat.add_assoc]

theorem record_shift (p s : List Char) (ds : Declarations) (finding : Finding) :
    record (p ++ s) ds (finding.shift p.length) = record s ds finding := by
  cases finding with
  | body name start length => rw [Finding.shift, record, record, List.drop_length_add_append]
  | unclosed | withoutBody | bodyUnclosed => rfl

theorem record_extend {finding : Finding} (h : finding ∈ findings s) (t : List Char)
    (ds : Declarations) : record (s ++ t) ds finding = record s ds finding := by
  cases finding with
  | unclosed | withoutBody | bodyUnclosed => rfl
  | body name start length =>
    obtain ⟨header, hs, -, hf⟩ := mem_findings h
    obtain ⟨before, body, after, hm, rfl, rfl⟩ := Header.finding_body hs hf
    have hlen : before.length + 1 + body.length ≤ s.length := by
      rw [← length_mask s, hm]
      simp
      omega
    rw [record, record, List.drop_append_of_le_length (by omega), List.take_append_of_le_length]
    rw [List.length_drop]
    omega

theorem foldl_record_update {found : List Finding} (ds es : Declarations) :
    found.foldl (record s) (ds.update es) = ds.update (found.foldl (record s) es) := by
  induction found generalizing es with
  | nil => rfl
  | cons finding found ih =>
    have hstep : record s (ds.update es) finding = ds.update (record s es finding) := by
      cases finding with
      | body name start length => exact (Declarations.update_insert ds es name _).symm
      | unclosed | withoutBody | bodyUnclosed => rfl
    rw [List.foldl_cons, List.foldl_cons, hstep, ih]

theorem findings_line {a b : List Char} (hseam : Seam ('\n' :: b) a) (hb : Balanced (mask a))
    (hopen : StructsOpen ' ' (mask a)) : findings (a ++ '\n' :: b) =
      findings a ++ (findings b).map (Finding.shift (a ++ ['\n']).length) := by
  have hmask : mask (a ++ '\n' :: b) = mask a ++ '\n' :: mask b := by
    rw [mask, hseam.mark_line, List.map_append, List.map_cons]
    rfl
  have hcode := isCode_mask (a ++ '\n' :: b)
  rw [hmask] at hcode
  rw [findings, hmask, headers_line hopen, headers_before (show isWord '\n' = isWord ' ' by decide),
    List.filter_append, List.map_append, List.filter_map, List.map_map]
  congr 1
  · apply List.map_congr_left
    intro header hheader
    obtain ⟨p, hp⟩ := headers_suffix (List.mem_filter.1 hheader).1
    rw [← hp] at hb hcode
    obtain ⟨inner, rest, hafter, hinner⟩ := hb.closes
    rw [List.append_assoc, List.cons_append] at hcode
    have hx := hcode.append.2.cons
    have hclose := hx.append.1.enclosed?_curly_iff.2 ⟨hafter, hinner⟩
    rw [List.length_append]
    exact Header.finding_extend _ hx hclose
  · rw [findings, List.map_map]
    apply List.map_congr_left
    intro header hheader
    have hs := headers_suffix (List.mem_filter.1 hheader).1
    have hle := ((List.suffix_cons _ _).trans hs).length_le
    have hlen : (mask a ++ '\n' :: mask b).length = (a ++ ['\n']).length + (mask b).length := by
      simp
      omega
    rw [hlen]
    exact Header.finding_shift hle _

theorem structsOpen_of_isWordAt
    (h : ∀ pos, isWordAt s pos "struct".toList = true → '{' ∈ s.drop pos) : StructsOpen ' ' s := by
  rintro p t rfl hp ht
  have hopen := h p.length (by rw [isWordAt_append, ht, hp]; rfl)
  rwa [List.drop_left] at hopen

/-- Positions behind the end of a text need not be looked at. -/
theorem forall_isWordAt {word : List Char} {p : Nat → Prop}
    (h : ∀ pos ≤ s.length, isWordAt s pos word = true → p pos) (pos : Nat)
    (hword : isWordAt s pos word = true) : p pos := by
  refine h pos ?_ hword
  rw [isWordAt, Bool.and_eq_true, Bool.and_eq_true] at hword
  exact of_decide_eq_true hword.1.1

theorem declarations_seam {a b : List Char} (hseam : Seam ('\n' :: b) a)
    (hbalanced : Balanced (mask a)) (hopen : StructsOpen ' ' (mask a)) :
    declarations (a ++ '\n' :: b) = (declarations a).update (declarations b) := by
  have hfirst : (findings a).foldl (record (a ++ '\n' :: b)) .empty = declarations a := by
    rw [declarations_eq]
    exact List.foldl_ext _ _ _ fun ds finding hf => record_extend hf _ ds
  have hsecond (ds : Declarations) (finding : Finding) : record (a ++ '\n' :: b) ds
      (finding.shift (a ++ ['\n']).length) = record b ds finding := by
    rw [List.append_cons, record_shift]
  rw [declarations_eq, findings_line hseam hbalanced hopen, List.foldl_append, hfirst,
    List.foldl_map]
  simp only [hsecond]
  rw [← (declarations a).update_empty, foldl_record_update, Declarations.update_empty,
    ← declarations_eq]

/-- If the first text leaves no literal and no brace open, and has no struct head without its
brace, then a source made of two texts declares what the first one does, updated with what the
second one does. -/
theorem declarations_line (a b : List Char) (hclosed : Closes (a ++ ['\n']))
    (hbalanced : Balanced (mask a))
    (hstructs : ∀ pos, isWordAt (mask a) pos "struct".toList = true → '{' ∈ (mask a).drop pos) :
    declarations (a ++ '\n' :: b) = (declarations a).update (declarations b) :=
  declarations_seam (hclosed.seam b) hbalanced (structsOpen_of_isWordAt hstructs)

/-- A view, and the same view declared anew. -/
def oldView : List Char := "struct A:View{var body:some View{X}}".toList

def newView : List Char := "struct A:View{var body:some View{Y}}".toList

theorem declarations_newView :
    declarations (oldView ++ '\n' :: newView) =
      (declarations oldView).update (declarations newView) := by
  apply declarations_line
  · decide
  · decide
  · exact forall_isWordAt (by decide)

/-- What a source declares behind a line break is declared last. -/
theorem declarations_snoc {a b : List Char} {name body : String} (hclosed : Closes (a ++ ['\n']))
    (hbalanced : Balanced (mask a)) (hopen : StructsOpen ' ' (mask a))
    (hb : declarations b = Declarations.empty.insert name body) :
    declarations (a ++ '\n' :: b) = (declarations a).insert name body := by
  rw [declarations_seam (hclosed.seam b) hbalanced hopen, hb, Declarations.update_insert,
    Declarations.update_empty]

/-- A view of three views. -/
def cardText : String := "struct Card:View\x7bvar body:some View\x7bX\nY\nX\x7d\x7d"

theorem declarations_cardText :
    declarations cardText.toList = Declarations.empty.insert "Card" "X\nY\nX" := by
  have hhead : header? ' ' (mask cardText.toList) = some ⟨"Card".toList, "View".toList,
      "var body:some View\x7bX\nY\nX\x7d\x7d".toList⟩ := by rfl
  have hfound : findings cardText.toList = [.body "Card" 36 5] := by
    rw [findings_of_header? hhead (by decide) (by decide)]
    rfl
  rw [declarations_eq, hfound]
  rfl

theorem declarations_oldView : declarations oldView = Declarations.empty.insert "A" "X" := by
  have hhead : header? ' ' (mask oldView) =
      some ⟨"A".toList, "View".toList, "var body:some View\x7bX\x7d\x7d".toList⟩ := by rfl
  have hfound : findings oldView = [.body "A" 33 1] := by
    rw [findings_of_header? hhead (by decide) (by decide)]
    rfl
  rw [declarations_eq, hfound]
  rfl

/-- A source with two views, in the other order than that of their names. -/
def pairText : String := rowText ++ "\n" ++ cardText

theorem declarations_pairText : declarations pairText.toList =
    (Declarations.empty.insert "Row" "X").insert "Card" "X\nY\nX" := by
  rw [pairText, String.toList_append, String.toList_append, List.append_assoc,
    ← declarations_rowText]
  exact declarations_snoc (by decide) (by decide)
    (structsOpen_of_isWordAt (forall_isWordAt (by decide))) declarations_cardText

/-- A source that keeps one of the two views and has another one. -/
def otherText : String := cardText ++ "\n" ++ String.ofList oldView

theorem declarations_otherText : declarations otherText.toList =
    (Declarations.empty.insert "Card" "X\nY\nX").insert "A" "X" := by
  rw [otherText, String.toList_append, String.toList_append, String.toList_ofList,
    List.append_assoc, ← declarations_cardText]
  exact declarations_snoc (by decide) (by decide)
    (structsOpen_of_isWordAt (forall_isWordAt (by decide))) declarations_oldView

end ViewHierarchy.Source
