import ViewHierarchy.Source.Declaration
import ViewHierarchy.Proofs.Source.Enclosing
import ViewHierarchy.Proofs.Source.Masking

/-! Declarations are found on the masked text, and each body is cut out between two braces of code;
so a masked source declares the same views, with their bodies masked. -/
namespace ViewHierarchy

namespace Source
open Text (afterBlanks? trimLeft)

theorem afterWord?_suffix {word s rest : List Char} {before : Char}
    (h : afterWord? word before s = some rest) : rest <:+ s := by
  rw [afterWord?, Option.ite_none_right_eq_some] at h
  cases h.2
  exact List.drop_suffix _ s

theorem trimLeft_suffix (s : List Char) : trimLeft s <:+ s := List.dropWhile_suffix _

theorem afterBlanks?_suffix {s rest : List Char} (h : afterBlanks? s = some rest) : rest <:+ s := by
  cases s with
  | nil => cases h
  | cons c t =>
    rw [afterBlanks?, Option.ite_none_right_eq_some] at h
    cases h.2
    exact (trimLeft_suffix t).trans (List.suffix_cons c t)

theorem afterColon?_suffix {s rest : List Char} (h : afterColon? s = some rest) : rest <:+ s := by
  have hs := trimLeft_suffix s
  rw [afterColon?] at h
  split at h
  · next t ht =>
    cases h
    rw [ht] at hs
    exact ((trimLeft_suffix t).trans (List.suffix_cons _ t)).trans hs
  · cases h

theorem afterGenerics?_suffix {s rest : List Char} (h : afterGenerics? s = some rest) :
    rest <:+ s := by
  induction s with
  | nil => cases h
  | cons c t ih =>
    have ht : t <:+ c :: t := List.suffix_cons c t
    rw [afterGenerics?] at h
    split at h
    · cases h
    · split at h
      · rcases Option.or_eq_some_iff.1 h with h | ⟨-, h⟩
        · exact (afterColon?_suffix h).trans ht
        · exact (ih h).trans ht
      · exact (ih h).trans ht

theorem afterHeadColon?_suffix {s rest : List Char} (h : afterHeadColon? s = some rest) :
    rest <:+ s := by
  have hs := trimLeft_suffix s
  rw [afterHeadColon?] at h
  split at h
  · next t ht =>
    rw [ht] at hs
    exact ((afterGenerics?_suffix h).trans (List.suffix_cons _ t)).trans hs
  · exact afterColon?_suffix h

theorem headerNamed?_suffix {name s : List Char} {header : Header}
    (h : headerNamed? name s = some header) : '{' :: header.after <:+ s := by
  rw [headerNamed?.eq_def] at h
  split at h
  · next after ha =>
    cases h
    exact ha ▸ List.dropWhile_suffix _
  · cases h

theorem header?_suffix {before : Char} {s : List Char} {header : Header}
    (h : header? before s = some header) : '{' :: header.after <:+ s := by
  obtain ⟨s₁, h₁, h⟩ := Option.bind_eq_some_iff.1 h
  obtain ⟨s₂, h₂, h⟩ := Option.bind_eq_some_iff.1 h
  obtain ⟨s₃, h₃, h⟩ := Option.bind_eq_some_iff.1 h
  have e₁ := (headerNamed?_suffix h).trans (afterHeadColon?_suffix h₃)
  have e₂ := (e₁.trans (List.dropWhile_suffix _)).trans (afterBlanks?_suffix h₂)
  exact e₂.trans (afterWord?_suffix h₁)

/-- Every header ends in a brace of the text it was found in. -/
theorem headers_suffix {before : Char} {s : List Char} {header : Header}
    (h : header ∈ headers before s) : '{' :: header.after <:+ s := by
  fun_induction headers before s with
  | case1 => cases h
  | case2 before c rest found hf hlt ih =>
    rcases List.mem_cons.1 h with rfl | h
    · exact header?_suffix hf
    · exact (ih h).trans ((List.suffix_cons _ _).trans (header?_suffix hf))
  | case3 before c rest hf ih => exact (ih h).trans (List.suffix_cons c rest)

theorem bodyBlock?_suffix {before : Char} {s after : List Char}
    (h : bodyBlock? before s = some after) : '{' :: after <:+ s := by
  obtain ⟨s₁, h₁, h⟩ := Option.bind_eq_some_iff.1 h
  obtain ⟨s₂, h₂, h⟩ := Option.bind_eq_some_iff.1 h
  obtain ⟨s₃, h₃, h⟩ := Option.bind_eq_some_iff.1 h
  obtain ⟨s₄, h₄, h⟩ := Option.bind_eq_some_iff.1 h
  obtain ⟨s₅, h₅, h⟩ := Option.bind_eq_some_iff.1 h
  obtain ⟨s₆, h₆, h⟩ := Option.bind_eq_some_iff.1 h
  obtain ⟨s₇, h₇, h⟩ := Option.bind_eq_some_iff.1 h
  have e₃ := (afterWord?_suffix h₃).trans ((afterBlanks?_suffix h₂).trans (afterWord?_suffix h₁))
  have e₆ := (afterBlanks?_suffix h₆).trans ((afterWord?_suffix h₅).trans (afterColon?_suffix h₄))
  have e₇ : s₇ <:+ s₆ := by
    refine (afterWord?_suffix h₇).trans ?_
    split
    · exact List.drop_suffix 8 s₆
    · exact List.suffix_refl s₆
  have e₈ := trimLeft_suffix s₇
  split at h
  · next t ht =>
    cases h
    rw [ht] at e₈
    exact e₈.trans (e₇.trans (e₆.trans e₃))
  · cases h

theorem ownBody?_suffix {level : Int} {before : Char} {s inside : List Char}
    (h : ownBody? level before s = some inside) : '{' :: inside <:+ s := by
  induction s generalizing level before with
  | nil => cases h
  | cons c rest ih =>
    have hrest : rest <:+ c :: rest := List.suffix_cons c rest
    rw [ownBody?] at h
    split at h
    · next after hb =>
      split at h
      · cases h
        exact bodyBlock?_suffix hb
      · exact (ih h).trans hrest
    · exact (ih h).trans hrest

theorem enclosed?_brace {s inner rest : List Char}
    (h : enclosed? ('{' :: s) = some (inner, rest)) : s = inner ++ '}' :: rest := by
  obtain ⟨c, hc, hs, -⟩ := enclosed?_eq_some_iff.1 h
  cases hc
  exact hs

/-- A body found under a header is what stands between two braces of the text. -/
theorem Header.finding_body {header : Header} {masked : List Char} {name : String}
    {start length : Nat} (hs : '{' :: header.after <:+ masked)
    (h : header.finding masked.length = .body name start length) :
    ∃ before body after, masked = before ++ '{' :: (body ++ '}' :: after) ∧
      start = before.length + 1 ∧ length = body.length := by
  obtain ⟨pre, rfl⟩ := hs
  unfold Header.finding at h
  split at h
  · cases h
  · next inner rest hi =>
    have hafter := enclosed?_brace hi
    split at h
    · cases h
    · next inside ho =>
      obtain ⟨mid, rfl⟩ := ownBody?_suffix ho
      have hskip : (mid ++ '{' :: inside).length - inside.length = mid.length + 1 := by
        simp only [List.length_append, List.length_cons]
        omega
      have hdrop : header.after.drop (mid.length + 1) = inside ++ '}' :: rest := by
        rw [hafter, List.append_assoc, List.cons_append, List.append_cons]
        exact List.drop_left' (by simp only [List.length_append, List.length_singleton])
      simp only [hskip, hdrop] at h
      split at h
      · cases h
      · next body rest' hb =>
        have hinside := enclosed?_brace hb
        cases h
        refine ⟨pre ++ '{' :: mid, body, rest', ?_, ?_, rfl⟩
        · rw [hafter, List.append_assoc, List.append_assoc, List.cons_append, List.cons_append,
            hinside]
        · simp only [List.length_append, List.length_cons]
          omega

/-- The body stands between two braces of code, and its characters have the same roles there and
on their own. -/
def IsCutOut (source body : List Char) : Prop :=
  ∃ before after, source = before ++ '{' :: (body ++ '}' :: after) ∧
    mark source = mark before ++ ('{', .code) :: (mark body ++ ('}', .code) :: mark after)

/-- Cutting a body out between two braces and masking it may be done in either order. -/
theorem mask_body {s before body after : List Char}
    (h : mask s = before ++ '{' :: (body ++ '}' :: after)) :
    ((mask s).drop (before.length + 1)).take body.length =
        mask ((s.drop (before.length + 1)).take body.length) ∧
      IsCutOut s ((s.drop (before.length + 1)).take body.length) := by
  have hcut : ∀ a b c : List Char,
      ((a ++ '{' :: (b ++ '}' :: c)).drop (a.length + 1)).take b.length = b := by
    intro a b c
    rw [List.append_cons, List.drop_left' (by rw [List.length_append, List.length_singleton]),
      List.take_left]
  obtain ⟨s₁, s₂, rfl, hm, rfl, h₂⟩ := mask_split h (by decide) (by decide)
  obtain ⟨s₃, s₄, rfl, hm', rfl, rfl⟩ := mask_split h₂ (by decide) (by decide)
  rw [h, hcut, length_mask, length_mask, hcut]
  exact ⟨rfl, s₁, s₄, rfl, by rw [hm, hm']⟩

end Source

namespace Declarations

theorem ext_entries {ds es : Declarations} (h : ds.entries = es.entries) : ds = es := by
  cases ds
  cases es
  cases h
  rfl

theorem entries_insert (ds : Declarations) (name body : String) :
    (ds.insert name body).entries =
      if name ∈ ds.names then ds.entries.map (setBody name body)
      else ds.entries ++ [(name, body)] := by
  rw [insert]
  split <;> rfl

def mapBodies (f : String → String) (ds : Declarations) : Declarations :=
  ⟨ds.entries.map fun e => (e.1, f e.2), by
    rw [List.map_map]
    exact ds.distinct⟩

theorem entries_mapBodies (f : String → String) (ds : Declarations) :
    (ds.mapBodies f).entries = ds.entries.map fun e => (e.1, f e.2) := rfl

theorem names_mapBodies (f : String → String) (ds : Declarations) :
    (ds.mapBodies f).names = ds.names := by
  rw [names, entries_mapBodies, List.map_map]
  rfl

theorem mapBodies_insert (f : String → String) (ds : Declarations) (name body : String) :
    (ds.insert name body).mapBodies f = (ds.mapBodies f).insert name (f body) := by
  apply ext_entries
  rw [entries_mapBodies, entries_insert, entries_insert, names_mapBodies, entries_mapBodies]
  split
  · rw [List.map_map, List.map_map]
    apply List.map_congr_left
    intro e _
    by_cases h : e.1 = name
    · simp only [Function.comp_apply, setBody, h, if_true]
    · simp only [Function.comp_apply, setBody, h, if_false]
  · rw [List.map_append]
    rfl

theorem mem_entries_insert {ds : Declarations} {name body : String} {e : String × String}
    (h : e ∈ (ds.insert name body).entries) : e ∈ ds.entries ∨ e = (name, body) := by
  rw [entries_insert] at h
  split at h
  · obtain ⟨d, hd, rfl⟩ := List.mem_map.1 h
    by_cases hn : d.1 = name
    · exact .inr (if_pos hn)
    · exact .inl (by rw [setBody, if_neg hn]; exact hd)
  · rcases List.mem_append.1 h with h | h
    · exact .inl h
    · exact .inr (List.mem_singleton.1 h)

end Declarations

namespace Source

/-- Adds what a finding leads to, cut out of a source. -/
def record (source : List Char) (ds : Declarations) : Finding → Declarations
  | .body name start length => ds.insert name (String.ofList ((source.drop start).take length))
  | _ => ds

theorem declarations_eq (source : List Char) :
    declarations source = (findings source).foldl (record source) .empty := rfl

theorem findings_mask (source : List Char) : findings (mask source) = findings source := by
  rw [findings, findings, mask_mask]

theorem mem_findings_body {source : List Char} {name : String} {start length : Nat}
    (h : .body name start length ∈ findings source) :
    ((mask source).drop start).take length = mask ((source.drop start).take length) ∧
      IsCutOut source ((source.drop start).take length) := by
  obtain ⟨header, hh, hf⟩ := List.mem_map.1 h
  obtain ⟨before, body, after, hm, rfl, rfl⟩ :=
    Header.finding_body (headers_suffix (List.mem_filter.1 hh).1) hf
  exact mask_body hm

def maskBody (body : String) : String := String.ofList (mask body.toList)

theorem record_mask {source : List Char} {finding : Finding} (h : finding ∈ findings source)
    (ds : Declarations) : record (mask source) (ds.mapBodies maskBody) finding =
      (record source ds finding).mapBodies maskBody := by
  cases finding with
  | unclosed name => rfl
  | withoutBody name => rfl
  | bodyUnclosed name => rfl
  | body name start length =>
    rw [record, record, Declarations.mapBodies_insert, (mem_findings_body h).1, maskBody,
      String.toList_ofList]

theorem foldl_record_mask {source : List Char} {found : List Finding}
    (h : ∀ finding ∈ found, finding ∈ findings source) (ds : Declarations) :
    found.foldl (record (mask source)) (ds.mapBodies maskBody) =
      (found.foldl (record source) ds).mapBodies maskBody := by
  induction found generalizing ds with
  | nil => rfl
  | cons finding rest ih =>
    obtain ⟨hf, hrest⟩ := List.forall_mem_cons.1 h
    rw [List.foldl_cons, List.foldl_cons, record_mask hf, ih hrest]

/-- Every body is cut out where a finding says. -/
theorem mem_entries_foldl {source : List Char} {found : List Finding} {ds : Declarations}
    {e : String × String} (h : e ∈ (found.foldl (record source) ds).entries) :
    e ∈ ds.entries ∨ ∃ start length, .body e.1 start length ∈ found ∧
      e.2.toList = (source.drop start).take length := by
  induction found generalizing ds with
  | nil => exact .inl h
  | cons finding rest ih =>
    rcases ih h with hds | ⟨start, length, hf, he⟩
    · cases finding with
      | unclosed name => exact .inl hds
      | withoutBody name => exact .inl hds
      | bodyUnclosed name => exact .inl hds
      | body name start length =>
        rcases Declarations.mem_entries_insert hds with hds | rfl
        · exact .inl hds
        · exact .inr ⟨start, length, List.mem_cons_self, String.toList_ofList⟩
    · exact .inr ⟨start, length, List.mem_cons_of_mem _ hf, he⟩

theorem mem_declarations {source : List Char} {e : String × String}
    (h : e ∈ (declarations source).entries) : ∃ start length,
      .body e.1 start length ∈ findings source ∧
        e.2.toList = (source.drop start).take length := by
  rcases mem_entries_foldl h with h | h
  · cases h
  · exact h

theorem isCutOut_of_mem_foldl {source : List Char} {found : List Finding}
    (h : ∀ finding ∈ found, finding ∈ findings source) {ds : Declarations}
    (hds : ∀ e ∈ ds.entries, IsCutOut source e.2.toList) :
    ∀ e ∈ (found.foldl (record source) ds).entries, IsCutOut source e.2.toList := by
  intro e he
  rcases mem_entries_foldl he with he | ⟨start, length, hf, he⟩
  · exact hds e he
  · rw [he]
    exact (mem_findings_body (h _ hf)).2

/-- A masked source declares the same views in the same order, each with its body masked, and every
body is cut out with the roles that its characters have in the source. -/
theorem declarations_mask (source : List Char) :
    (declarations (mask source)).entries =
        (declarations source).entries.map (fun e => (e.1, maskBody e.2)) ∧
      ∀ e ∈ (declarations source).entries, IsCutOut source e.2.toList := by
  rw [declarations_eq, declarations_eq, findings_mask]
  constructor
  · exact congrArg Declarations.entries (foldl_record_mask (fun _ h => h) .empty)
  · exact isCutOut_of_mem_foldl (fun _ h => h) (List.forall_mem_nil _)

end Source

end ViewHierarchy
