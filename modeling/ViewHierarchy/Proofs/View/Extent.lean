import ViewHierarchy.Proofs.Source.Skipping
import ViewHierarchy.Proofs.View.Passing

/-! The extent of a conditional: the text it is read from, from its `if` to its last block or to
the `else` that leads nowhere. -/
namespace ViewHierarchy
open Text Source

variable {s rest after : List Char}

/-- White space and comments throughout. -/
def IsGap (s : List Char) : Prop := ∀ m ∈ mark s, m.isTrivia = true

/-- The word else with the white space and the comments on both sides of it. -/
inductive IsElse : List Char → Prop
  | intro {before behind} : IsGap before → IsGap behind →
      IsElse (before ++ ("else".toList ++ behind))

/-- An `if` with its condition and its block. -/
def ifBlock (head block : List Char) : List Char :=
  'i' :: 'f' :: (head ++ '{' :: (block ++ ['}']))

/-- The texts that a conditional is read from as a whole. -/
inductive Conditional.Extends : Conditional → List Char → Prop
  | plain {head block} : Extends (.plain (collapse head) block) (ifBlock head block)
  | dangling {head block link} : IsElse link →
      Extends (.plain (collapse head) block) (ifBlock head block ++ link)
  | unfinished {head block link inner} : IsElse link → enclosed? ('{' :: inner) = none →
      Extends (.unfinished (collapse head) block) (ifBlock head block ++ (link ++ '{' :: inner))
  | alternative {head block link otherwise} : IsElse link →
      Extends (.alternative (collapse head) block otherwise)
        (ifBlock head block ++ (link ++ '{' :: (otherwise ++ ['}'])))
  | chain {head block link next s} : IsElse link → Extends next s →
      Extends (.chain (collapse head) block next) (ifBlock head block ++ (link ++ s))

/-- A block and its braces stand before a seam. -/
theorem enclosed?_seam {s inner rest : List Char} (h : enclosed? ('{' :: s) = some (inner, rest)) :
    s = inner ++ '}' :: rest ∧ Seam rest ('{' :: (inner ++ ['}'])) := by
  obtain ⟨c, hc, rfl, hk⟩ := enclosed?_eq_some_iff.1 h
  cases hc
  obtain ⟨hseam, hl⟩ := seam_of_code (closeOffset?_code hk)
  exact ⟨rfl, .code (literal?_eq_none _ (by decide) (by decide)) (hseam.snoc hl)⟩

/-- A condition with its block, as they stand in the text. -/
theorem clause?_seam {clause : Clause} (h : clause? s = some (clause, rest)) :
    ∃ head, s = head ++ '{' :: (clause.block ++ '}' :: rest) ∧
      clause.condition = collapse head ∧ Seam rest (head ++ '{' :: (clause.block ++ ['}'])) := by
  obtain ⟨n, hn, h⟩ := Option.bind_eq_some_iff.1 h
  obtain ⟨⟨block, rest'⟩, he, h⟩ := Option.bind_eq_some_iff.1 h
  cases h
  obtain ⟨w, hs, hw⟩ := exists_trimLeft s
  generalize trimLeft s = y at *
  obtain ⟨condition, z, rfl, rfl⟩ := split_at_mark (conditionLength?_code hn)
  rw [List.drop_left] at he
  obtain ⟨rfl, hblock⟩ := enclosed?_seam he
  refine ⟨w ++ condition, by rw [hs, List.append_assoc], ?_, ?_⟩
  · rw [List.take_left, collapse_blank hw]
  · have hcondition := (seam_of_code (conditionLength?_code hn)).1
    have hplain := (tidy_of_ordinary fun c hc => isOrdinary_of_isBlank (hw c hc)).plain
    rw [List.append_assoc]
    apply (hplain.seam _).append
    apply Seam.append _ hblock
    simpa using hcondition

/-- The word else that follows a block, as it stands in the text. -/
theorem afterElse?_seam (h : afterElse? s = some after) :
    ∃ link, s = link ++ after ∧ IsElse link ∧ Seam after link := by
  simp only [afterElse?, Option.ite_none_right_eq_some, Option.some.injEq] at h
  obtain ⟨hword, rfl⟩ := h
  obtain ⟨t, ht, -⟩ := startsWithWord_eq_true.1 hword
  have hdrop : (dropTrivia s).drop 4 = t := by
    rw [ht]
    rfl
  rw [hdrop]
  obtain ⟨before, hs, hseam, hbefore⟩ := exists_skip uniform_isTrivia s
  obtain ⟨behind, ht', hseam', hbehind⟩ := exists_skip uniform_isTrivia t
  rw [← dropTrivia_eq_skip] at hs hseam ht' hseam'
  rw [ht] at hs hseam
  have helse : Plain "else".toList :=
    (tidy_of_ordinary (isOrdinary_of_isIdentifier (by decide))).plain
  refine ⟨before ++ ("else".toList ++ behind), ?_, ⟨hbefore, hbehind⟩, ?_⟩
  · rw [List.append_assoc, List.append_assoc, ← ht', hs]
    rfl
  · apply Seam.append
    · rw [List.append_assoc, ← ht']
      exact hseam
    · exact (helse.seam _).append hseam'

/-- The `if`, the condition and the block of a conditional, as they stand in the text. -/
theorem ifBlock_seam {clause : Clause} (hif : startsWithIf s = true)
    (h : clause? (s.drop 2) = some (clause, rest)) :
    ∃ head, s = ifBlock head clause.block ++ rest ∧ clause.condition = collapse head ∧
      Seam rest (ifBlock head clause.block) := by
  obtain ⟨t, rfl, -⟩ := startsWithWord_eq_true.1 hif
  obtain ⟨head, ht, hcondition, hseam⟩ := clause?_seam h
  have hif : Plain ['i', 'f'] := by simp [Plain]
  refine ⟨head, ?_, hcondition, ?_⟩
  · rw [show t = _ from ht]
    simp [ifBlock]
  · exact (hif.seam _).append hseam

/-- An `if` with its block and the word else behind it, as they stand in the text. -/
theorem ifElse_seam {clause : Clause} (hif : startsWithIf s = true)
    (h : clause? (s.drop 2) = some (clause, rest)) (he : afterElse? rest = some after) :
    ∃ head link, s = ifBlock head clause.block ++ (link ++ after) ∧
      clause.condition = collapse head ∧ IsElse link ∧
      Seam (link ++ after) (ifBlock head clause.block) ∧ Seam after link := by
  obtain ⟨head, hs, hcondition, hseam⟩ := ifBlock_seam hif h
  obtain ⟨link, rfl, hlink, hseam'⟩ := afterElse?_seam he
  exact ⟨head, link, hs, hcondition, hlink, hseam, hseam'⟩

/-- What a conditional is read from is its extent, and what is left stands behind a seam. -/
theorem Conditional.read?_extends {c : Conditional} (hif : startsWithIf s = true)
    (h : read? s = some (c, rest)) : ∃ p, s = p ++ rest ∧ c.Extends p ∧ Seam rest p := by
  fun_induction Conditional.read? s generalizing c rest with
  | case1 => cases h
  | case2 s condition block rest hc he =>
    cases h
    obtain ⟨head, hs, hcondition, hseam⟩ := ifBlock_seam hif hc
    cases hcondition
    exact ⟨_, hs, .plain, hseam⟩
  | case3 s condition block between hc after he hlt hif' hnone ih =>
    cases h
    obtain ⟨head, link, hs, hcondition, hlink, hseam, hseam'⟩ := ifElse_seam hif hc he
    cases hcondition
    exact ⟨_, by rw [hs, List.append_assoc], .dangling hlink, hseam.append hseam'⟩
  | case4 s condition block between hc after he hlt hif' next rest hnext ih =>
    cases h
    obtain ⟨head, link, hs, hcondition, hlink, hseam, hseam'⟩ := ifElse_seam hif hc he
    obtain ⟨p, rfl, hp, hseam''⟩ := ih hif' hnext
    cases hcondition
    exact ⟨_, by rw [hs, List.append_assoc, List.append_assoc], .chain hlink hp,
      Seam.append (by rwa [List.append_assoc]) (hseam'.append hseam'')⟩
  | case5 s condition block between hc after he hlt hif' hbrace hnone =>
    cases h
    obtain ⟨head, link, hs, hcondition, hlink, -, -⟩ := ifElse_seam hif hc he
    obtain ⟨inner, rfl⟩ := List.head?_eq_some_iff.1 hbrace
    cases hcondition
    exact ⟨s, (List.append_nil s).symm, hs ▸ .unfinished hlink hnone, seam_nil s⟩
  | case6 s condition block between hc after he hlt hif' hbrace otherwise rest hblock =>
    cases h
    obtain ⟨head, link, hs, hcondition, hlink, hseam, hseam'⟩ := ifElse_seam hif hc he
    obtain ⟨inner, rfl⟩ := List.head?_eq_some_iff.1 hbrace
    obtain ⟨rfl, hseam''⟩ := enclosed?_seam hblock
    cases hcondition
    refine ⟨_, ?_, .alternative hlink, Seam.append ?_ (Seam.append ?_ hseam'')⟩
    · simp [hs]
    · simpa using hseam
    · simpa using hseam'
  | case7 s condition block between hc after he hlt hif' hbrace =>
    cases h
    obtain ⟨head, link, hs, hcondition, hlink, hseam, hseam'⟩ := ifElse_seam hif hc he
    cases hcondition
    exact ⟨_, by rw [hs, List.append_assoc], .dangling hlink, hseam.append hseam'⟩

end ViewHierarchy
