import ViewHierarchy.Proofs.Source.Cutting
import ViewHierarchy.Proofs.Source.Extraction
import ViewHierarchy.Proofs.Source.Header

/-! A body belongs to the struct that it is found in: it is the first one at the brace level of the
struct, and it closes before the struct does. -/
namespace ViewHierarchy.Source

variable {d : Int} {b c : Char} {s rest p inner inside : List Char}

/-- A body is declared behind `p`, and `inside` is what follows its opening brace; `b` is the
character before the text. -/
def BodyAt (b : Char) (s p inside : List Char) : Prop :=
  ∃ t, s = p ++ t ∧ bodyBlock? (p.getLastD b) t = some inside

theorem bodyAt_cons : BodyAt b (c :: rest) p inside ↔
    (p = [] ∧ bodyBlock? b (c :: rest) = some inside) ∨
      ∃ q, p = c :: q ∧ BodyAt c rest q inside := by
  constructor
  · rintro ⟨t, hs, ht⟩
    cases p with
    | nil =>
      rw [List.nil_append] at hs
      exact .inl ⟨rfl, hs ▸ ht⟩
    | cons a q =>
      obtain ⟨rfl, rfl⟩ := List.cons.inj hs
      exact .inr ⟨q, rfl, t, rfl, by rwa [List.getLastD_cons] at ht⟩
  · rintro (⟨rfl, h⟩ | ⟨q, rfl, t, rfl, ht⟩)
    · exact ⟨c :: rest, rfl, h⟩
    · exact ⟨t, rfl, by rwa [List.getLastD_cons]⟩

/-- The first body that stands where the level is zero, counted from level `d` on. -/
structure FirstBody (d : Int) (b : Char) (s p inside : List Char) : Prop where
  body : BodyAt b s p inside
  level : d + braceLevel p = 0
  first : ∀ q other, BodyAt b s q other → d + braceLevel q = 0 → p.length ≤ q.length

theorem braceStep_of_bodyBlock? (h : bodyBlock? b (c :: rest) = some inside) : braceStep c = 0 := by
  obtain ⟨t, ht, -⟩ := Option.bind_eq_some_iff.1 h
  rw [afterWord?, Option.ite_none_right_eq_some, Bool.and_eq_true, List.isPrefixOf_iff_prefix] at ht
  obtain ⟨r, hr⟩ := ht.1.2
  rw [← (List.cons.inj hr).1]
  rfl

theorem ownBody?_cons (hskip : bodyBlock? b (c :: rest) = none ∨ d ≠ 0) :
    ownBody? d b (c :: rest) = ownBody? (d + braceStep c) c rest := by
  rw [ownBody?]
  cases h : bodyBlock? b (c :: rest) with
  | none =>
    simp only [braceStep]
    split
    · rfl
    · split
      · rfl
      · rw [Int.add_zero]
  | some after =>
    have hd : d ≠ 0 := hskip.resolve_left (h ▸ Option.some_ne_none after)
    simp only [if_neg hd, braceStep_of_bodyBlock? h, Int.add_zero]

theorem FirstBody.cons (hskip : bodyBlock? b (c :: rest) = none ∨ d ≠ 0)
    (h : FirstBody (d + braceStep c) c rest p inside) :
    FirstBody d b (c :: rest) (c :: p) inside := by
  constructor
  · exact bodyAt_cons.2 (.inr ⟨p, rfl, h.body⟩)
  · rw [braceLevel_cons, ← Int.add_assoc]
    exact h.level
  · intro q other hq hlevel
    rcases bodyAt_cons.1 hq with ⟨rfl, hb⟩ | ⟨r, rfl, hr⟩
    · rcases hskip with hnone | hd
      · cases hnone.symm.trans hb
      · exact absurd (by simpa using hlevel) hd
    · rw [braceLevel_cons, ← Int.add_assoc] at hlevel
      exact Nat.succ_le_succ (h.first r other hr hlevel)

theorem firstBody_of_ownBody? (h : ownBody? d b s = some inside) :
    ∃ p, FirstBody d b s p inside := by
  induction s generalizing d b with
  | nil => cases h
  | cons c rest ih =>
    by_cases hskip : bodyBlock? b (c :: rest) = none ∨ d ≠ 0
    · rw [ownBody?_cons hskip] at h
      obtain ⟨p, hp⟩ := ih h
      exact ⟨c :: p, hp.cons hskip⟩
    · rw [not_or, ← ne_eq, Option.ne_none_iff_exists'] at hskip
      obtain ⟨⟨after, hb⟩, hd⟩ := hskip
      rw [Decidable.not_not] at hd
      subst hd
      rw [ownBody?, hb] at h
      cases h
      refine ⟨[], bodyAt_cons.2 (.inl ⟨rfl, hb⟩), by simp, fun q _ _ _ => Nat.zero_le _⟩

theorem ownBody?_ne_none (hbody : BodyAt b s p inside) (hlevel : d + braceLevel p = 0) :
    ownBody? d b s ≠ none := by
  induction s generalizing d b p with
  | nil =>
    obtain ⟨t, hs, ht⟩ := hbody
    have := bodyBlock?_suffix ht
    rw [(List.append_eq_nil_iff.1 hs.symm).2, List.suffix_nil] at this
    cases this
  | cons c rest ih =>
    rcases bodyAt_cons.1 hbody with ⟨rfl, hb⟩ | ⟨q, rfl, hq⟩
    · have hd : d = 0 := by simpa using hlevel
      simp only [ownBody?, hb, if_pos hd]
      exact Option.some_ne_none inside
    · by_cases hskip : bodyBlock? b (c :: rest) = none ∨ d ≠ 0
      · rw [ownBody?_cons hskip]
        rw [braceLevel_cons, ← Int.add_assoc] at hlevel
        exact ih hq hlevel
      · rw [not_or, ← ne_eq, Option.ne_none_iff_exists', Decidable.not_not] at hskip
        obtain ⟨⟨after, hb⟩, hd⟩ := hskip
        simp only [ownBody?, hb, if_pos hd]
        exact Option.some_ne_none after

theorem BodyAt.unique {other q : List Char} (h : BodyAt b s p inside) (h' : BodyAt b s q other)
    (hlen : p.length = q.length) : inside = other := by
  obtain ⟨t, rfl, ht⟩ := h
  obtain ⟨t', hs, ht'⟩ := h'
  obtain ⟨rfl, rfl⟩ := List.append_inj hs hlen
  exact Option.some.inj (ht.symm.trans ht')

/-- The search finds the first body at level zero, and fails only if there is none. -/
theorem ownBody?_eq_some_iff : ownBody? d b s = some inside ↔ ∃ p, FirstBody d b s p inside := by
  constructor
  · exact firstBody_of_ownBody?
  · rintro ⟨p, hp⟩
    obtain ⟨other, hother⟩ := Option.ne_none_iff_exists'.1 (ownBody?_ne_none hp.body hp.level)
    obtain ⟨q, hq⟩ := firstBody_of_ownBody? hother
    have hpq := hp.first q other hq.body hq.level
    have hqp := hq.first p inside hp.body hp.level
    rw [hother, hp.body.unique hq.body (Nat.le_antisymm hpq hqp)]

/-- A brace of a balanced text is closed in it. -/
theorem Balanced.closes (hb : Balanced (p ++ '{' :: inside)) :
    ∃ body more, inside = body ++ '}' :: more ∧ Balanced body := by
  apply exists_balanced
  have hnonneg := hb.nonneg p (List.prefix_append _ _)
  have hclosed := hb.closed
  rw [braceLevel_append, braceLevel_cons, show braceStep '{' = 1 from rfl] at hclosed
  omega

/-- The body found in a balanced text is closed in it. -/
theorem Balanced.closes_ownBody (hb : Balanced s) (hown : ownBody? 0 b s = some inside) :
    ∃ p body more, s = p ++ '{' :: inside ∧ inside = body ++ '}' :: more ∧ Balanced body := by
  obtain ⟨p, rfl⟩ := ownBody?_suffix hown
  obtain ⟨body, more, hinside, hbody⟩ := hb.closes
  exact ⟨p, body, more, rfl, hinside, hbody⟩

theorem Header.finding_unclosed {header : Header} {total : Nat}
    (h : enclosed? ('{' :: header.after) = none) :
    header.finding total = .unclosed (String.ofList header.name) := by
  rw [Header.finding, h]

theorem Header.finding_withoutBody {header : Header} {total : Nat}
    (h : enclosed? ('{' :: header.after) = some (inner, rest))
    (hown : ownBody? 0 '{' inner = none) :
    header.finding total = .withoutBody (String.ofList header.name) := by
  rw [Header.finding, h]
  simp only [hown]

theorem Header.finding_ownBody {header : Header} {total : Nat} {body more : List Char}
    (hcode : IsCode header.after)
    (h : enclosed? ('{' :: header.after) = some (p ++ '{' :: (body ++ '}' :: more), rest))
    (hbody : Balanced body)
    (hown : ownBody? 0 '{' (p ++ '{' :: (body ++ '}' :: more)) = some (body ++ '}' :: more)) :
    header.finding total = .body (String.ofList header.name)
      (total - header.after.length + (p.length + 1)) body.length := by
  have hafter := (hcode.enclosed?_curly_iff.1 h).1
  have hskip : (p ++ '{' :: (body ++ '}' :: more)).length - (body ++ '}' :: more).length =
      p.length + 1 := by
    simp only [List.length_append, List.length_cons]
    omega
  have hdrop : header.after.drop (p.length + 1) = body ++ '}' :: (more ++ '}' :: rest) := by
    rw [hafter]
    simp [List.drop_append]
  have hclose : enclosed? ('{' :: header.after.drop (p.length + 1)) =
      some (body, more ++ '}' :: rest) :=
    (hcode.of_suffix (List.drop_suffix _ _)).enclosed?_curly_iff.2 ⟨hdrop, hbody⟩
  rw [Header.finding, h]
  simp only [hown, hskip, hclose]

/-- A struct that closes has a body that closes in it, or none of its own. -/
theorem Header.finding_closed {header : Header} (total : Nat) (hcode : IsCode header.after)
    (h : enclosed? ('{' :: header.after) = some (inner, rest)) :
    header.finding total = .withoutBody (String.ofList header.name) ∨
      ∃ p body more, inner = p ++ '{' :: (body ++ '}' :: more) ∧ Balanced body ∧
        header.finding total = .body (String.ofList header.name)
          (total - header.after.length + (p.length + 1)) body.length := by
  cases hown : ownBody? 0 '{' inner with
  | none => exact .inl (Header.finding_withoutBody h hown)
  | some inside =>
    have hb := (hcode.enclosed?_curly_iff.1 h).2
    obtain ⟨p, body, more, rfl, rfl, hbody⟩ := hb.closes_ownBody hown
    exact .inr ⟨p, body, more, rfl, hbody, Header.finding_ownBody hcode h hbody hown⟩

/-- A finding comes from a struct head behind which all is code. -/
theorem mem_findings {source : List Char} {finding : Finding} (h : finding ∈ findings source) :
    ∃ header : Header, '{' :: header.after <:+ mask source ∧ IsCode header.after ∧
      header.finding (mask source).length = finding := by
  obtain ⟨header, hh, hf⟩ := List.mem_map.1 h
  have hs := headers_suffix (List.mem_filter.1 hh).1
  exact ⟨header, hs, ((isCode_mask source).of_suffix hs).cons, hf⟩

theorem bodyUnclosed_notMem_findings (source : List Char) (name : String) :
    .bodyUnclosed name ∉ findings source := by
  intro h
  obtain ⟨header, -, hcode, hf⟩ := mem_findings h
  cases he : enclosed? ('{' :: header.after) with
  | none => cases (Header.finding_unclosed he).symm.trans hf
  | some parts =>
    rcases Header.finding_closed _ hcode he with h | ⟨p, body, more, -, -, h⟩
    · cases h.symm.trans hf
    · cases h.symm.trans hf

theorem balanced_of_mem_findings {source : List Char} {name : String} {start length : Nat}
    (h : .body name start length ∈ findings source) :
    Balanced (((mask source).drop start).take length) := by
  obtain ⟨header, ⟨pre, hpre⟩, hcode, hf⟩ := mem_findings h
  cases he : enclosed? ('{' :: header.after) with
  | none => cases (Header.finding_unclosed he).symm.trans hf
  | some parts =>
    obtain ⟨inner, rest⟩ := parts
    rcases Header.finding_closed _ hcode he with h | ⟨p, body, more, rfl, hbody, h⟩
    · cases h.symm.trans hf
    · have hafter := (hcode.enclosed?_curly_iff.1 he).1
      cases h.symm.trans hf
      have htext : mask source =
          (pre ++ '{' :: (p ++ ['{'])) ++ (body ++ ('}' :: (more ++ '}' :: rest))) := by
        rw [← hpre, hafter]
        simp
      have hstart : (mask source).length - header.after.length + (p.length + 1) =
          (pre ++ '{' :: (p ++ ['{'])).length := by
        rw [← hpre]
        simp
        omega
      rw [hstart, htext, List.drop_left, List.take_left]
      exact hbody

theorem mem_of_mem_findingDiagnostics {name : String} {declared : List String}
    {found : List Finding} (h : .bodyUnclosed name ∈ findingDiagnostics declared found) :
    .bodyUnclosed name ∈ found := by
  induction found generalizing declared with
  | nil => cases h
  | cons finding rest ih =>
    cases finding with
    | unclosed other | withoutBody other =>
      rw [findingDiagnostics, List.mem_cons] at h
      exact List.mem_cons_of_mem _ (ih (h.resolve_left Diagnostic.noConfusion))
    | bodyUnclosed other =>
      rw [findingDiagnostics, List.mem_cons] at h
      rcases h with h | h
      · cases h
        exact List.mem_cons_self
      · exact List.mem_cons_of_mem _ (ih h)
    | body other start length =>
      rw [findingDiagnostics] at h
      split at h
      · exact List.mem_cons_of_mem _ (ih ((List.mem_cons.1 h).resolve_left Diagnostic.noConfusion))
      · exact List.mem_cons_of_mem _ (ih h)

theorem IsCutOut.mark_close {source body : List Char} (h : IsCutOut source body) :
    mark (body ++ ['}']) = mark body ++ [('}', .code)] := by
  obtain ⟨before, after, rfl, hm⟩ := h
  have hopen := hm
  rw [mark_split (by rw [hm]; simp)] at hopen
  have hclose : mark (body ++ '}' :: after) = mark body ++ ('}', .code) :: mark after :=
    (List.cons.inj (List.append_cancel_left hopen)).2
  have hseam := (seam_of_code (s := body) (by rw [hclose]; simp)).1.replace []
  rw [hseam.mark_append]
  rfl

/-- A declared body, put between two braces, fills them. -/
theorem partnerAt?_body {source : List Char} {e : String × String}
    (h : e ∈ (declarations source).entries) :
    partnerAt? ('{' :: (e.2.toList ++ ['}'])) 0 = some (e.2.toList.length + 1) := by
  obtain ⟨start, length, hf, he⟩ := mem_declarations h
  obtain ⟨hmask, hcut⟩ := mem_findings_body hf
  rw [← he] at hmask hcut
  have hb : Balanced (mask e.2.toList) := hmask ▸ balanced_of_mem_findings hf
  have hi := enclosed?_curly_iff.2 ⟨rfl, hcut.mark_close, hb⟩
  rw [partnerAt?, if_neg (by decide)]
  exact congrArg (Option.map (· + 0)) (partner?_of_enclosed? hi)

/-- In a struct that closes the braces are balanced, and the body that it gets is the first at its
own level, which closes before the struct does; so no body is reported as unclosed, and every
declared body is a part of the source that its two braces enclose. -/
theorem declarations_ownBody (source : List Char) :
    (∀ header ∈ headers ' ' (mask source), ∀ inner rest,
      enclosed? ('{' :: header.after) = some (inner, rest) → Balanced inner ∧
        ∀ inside, (ownBody? 0 '{' inner = some inside ↔ ∃ p, FirstBody 0 '{' inner p inside) ∧
          (ownBody? 0 '{' inner = some inside → ∃ body more, inside = body ++ '}' :: more ∧
            enclosed? ('{' :: (inside ++ '}' :: rest)) = some (body, more ++ '}' :: rest))) ∧
      (∀ name, .bodyUnclosed name ∉ declarationDiagnostics source) ∧
      ∀ e ∈ (declarations source).entries, e.2.toList <:+: source ∧
        partnerAt? ('{' :: (e.2.toList ++ ['}'])) 0 = some (e.2.toList.length + 1) := by
  refine ⟨?_, ?_, ?_⟩
  · intro header hh inner rest he
    have hcode := ((isCode_mask source).of_suffix (headers_suffix hh)).cons
    obtain ⟨hafter, hb⟩ := hcode.enclosed?_curly_iff.1 he
    refine ⟨hb, fun inside => ⟨ownBody?_eq_some_iff, fun hown => ?_⟩⟩
    obtain ⟨p, body, more, rfl, rfl, hbody⟩ := hb.closes_ownBody hown
    refine ⟨body, more, rfl, ?_⟩
    have hinside : IsCode (body ++ '}' :: more ++ '}' :: rest) :=
      hcode.of_suffix ⟨p ++ ['{'], by rw [hafter]; simp⟩
    exact hinside.enclosed?_curly_iff.2 ⟨by simp, hbody⟩
  · intro name h
    rw [declarationDiagnostics, List.mem_append, List.mem_singleton] at h
    have hf := mem_of_mem_findingDiagnostics (h.resolve_right Diagnostic.noConfusion)
    exact bodyUnclosed_notMem_findings source name hf
  · intro e he
    obtain ⟨start, length, -, hbody⟩ := mem_declarations he
    refine ⟨?_, partnerAt?_body he⟩
    rw [hbody]
    exact (List.take_prefix _ _).isInfix.trans (List.drop_suffix _ _).isInfix

/-- The first body in this struct belongs to another struct. -/
def nestedStructs : List Char :=
  "struct A:View{struct B{var body:some View{Y}}var body:some View{X}}".toList

theorem firstBody_nestedStructs :
    ∃ p, FirstBody 0 '{' "struct B{var body:some View{Y}}var body:some View{X}".toList p
      ['X', '}'] := by
  have hhead : header? ' ' (mask nestedStructs) = some ⟨['A'], ['V', 'i', 'e', 'w'],
      "struct B{var body:some View{Y}}var body:some View{X}".toList ++ ['}']⟩ := by rfl
  have hmem := headers_found hhead ▸ List.mem_cons_self
  have hclose : enclosed? ('{' :: ("struct B{var body:some View{Y}}var body:some View{X}".toList ++
      ['}'])) = some ("struct B{var body:some View{Y}}var body:some View{X}".toList, []) := by
    decide
  exact (((declarations_ownBody nestedStructs).1 _ hmem _ _ hclose).2 _).1.1 (by decide)

end ViewHierarchy.Source
