import Mathlib.Data.List.TakeWhile
import ViewHierarchy.Proofs.View.Extent

/-! The siblings of a block cover it. They are read from parts of it that stand one behind the
other, and nothing but separators stands outside these parts. -/
namespace ViewHierarchy
open Text Source

variable {body s rest : List Char}

/-- The texts that a sibling is read from. -/
inductive Sibling.Extends : Sibling → List Char → Prop
  | expression {s : List Char} : trim s ≠ [] → Extends (expression (trim s)) s
  | conditional {c : Conditional} {s : List Char} : c.Extends s → Extends (conditional c) s

/-- A sibling with the offsets between which it stands in a block. -/
structure Placed where
  sibling : Sibling
  start : Nat
  stop : Nat

def Placed.shift (k : Nat) (p : Placed) : Placed :=
  { p with start := k + p.start, stop := k + p.stop }

/-- Siblings that stand in a block one behind the other with nothing but separators around them. -/
structure Covers (body : List Char) (ps : List Placed) : Prop where
  inside : ∀ p ∈ ps, p.start < p.stop ∧ p.stop ≤ body.length
  extent : ∀ p ∈ ps, p.sibling.Extends (body.extract p.start p.stop)
  ordered : ps.Pairwise fun p q => p.stop ≤ q.start
  between : ∀ k m, (mark body)[k]? = some m → (∀ p ∈ ps, ¬(p.start ≤ k ∧ k < p.stop)) →
    m.isSeparator = true

theorem covers_nil (h : ∀ m ∈ mark body, m.isSeparator = true) : Covers body [] where
  inside := List.forall_mem_nil _
  extent := List.forall_mem_nil _
  ordered := .nil
  between _ m hm _ := h m (List.mem_of_getElem? hm)

theorem extract_append (s t : List Char) (i j : Nat) :
    (s ++ t).extract (s.length + i) (s.length + j) = t.extract i j := by
  rw [List.extract_eq_take_drop, List.extract_eq_take_drop, List.drop_length_add_append,
    Nat.add_sub_add_left]

/-- What covers the rest of a block covers the block, with one sibling in front. -/
theorem Covers.cons {gap s : List Char} {sibling : Sibling} {ps : List Placed}
    (h : Covers rest ps) (hgap : ∀ m ∈ mark gap, m.isSeparator = true)
    (hgapSeam : Seam (s ++ rest) gap) (hseam : Seam rest s) (hne : s ≠ [])
    (hs : sibling.Extends s) :
    Covers (gap ++ (s ++ rest))
      (⟨sibling, gap.length, (gap ++ s).length⟩ :: ps.map (Placed.shift (gap ++ s).length)) := by
  have hmark : mark (gap ++ s ++ rest) = mark gap ++ mark s ++ mark rest := by
    rw [List.append_assoc, hgapSeam.mark_append, hseam.mark_append, List.append_assoc]
  have hlen : (mark gap ++ mark s).length = (gap ++ s).length := by
    rw [List.length_append, length_mark, length_mark, List.length_append]
  have hpos := List.length_pos_iff.2 hne
  rw [← List.append_assoc]
  refine ⟨?_, ?_, ?_, ?_⟩
  · refine List.forall_mem_cons.2 ⟨?_, ?_⟩
    · simp only [List.length_append]
      omega
    · intro p hp
      obtain ⟨q, hq, rfl⟩ := List.mem_map.1 hp
      have hinside := h.inside q hq
      simp only [Placed.shift, List.length_append]
      omega
  · refine List.forall_mem_cons.2 ⟨?_, ?_⟩
    · have hslice : (gap ++ s ++ rest).extract gap.length (gap ++ s).length = s := by
        rw [List.extract_eq_take_drop, List.append_assoc, List.drop_left, List.length_append,
          Nat.add_sub_cancel_left, List.take_left]
      rwa [hslice]
    · intro p hp
      obtain ⟨q, hq, rfl⟩ := List.mem_map.1 hp
      rw [Placed.shift, extract_append]
      exact h.extent q hq
  · refine List.pairwise_cons.2 ⟨?_, ?_⟩
    · intro p hp
      obtain ⟨q, -, rfl⟩ := List.mem_map.1 hp
      exact Nat.le_add_right _ _
    · refine List.pairwise_map.2 (h.ordered.imp ?_)
      intro p q hpq
      exact Nat.add_le_add_left hpq _
  · intro k m hm hout
    obtain ⟨hfirst, hrest⟩ := List.forall_mem_cons.1 hout
    rw [hmark] at hm
    by_cases hk : k < gap.length
    · rw [List.append_assoc, List.getElem?_append_left (by rwa [length_mark])] at hm
      exact hgap m (List.mem_of_getElem? hm)
    · have hge : (gap ++ s).length ≤ k := by
        simp only at hfirst
        omega
      obtain ⟨j, rfl⟩ := Nat.exists_eq_add_of_le hge
      rw [List.getElem?_append_right (by omega), hlen, Nat.add_sub_cancel_left] at hm
      apply h.between j m hm
      intro p hp hj
      apply hrest _ (List.mem_map_of_mem hp)
      simp only [Placed.shift]
      omega

/-- The white space, the commas and the semicolons in front of a block's first sibling. -/
theorem exists_dropSeparators (body : List Char) :
    ∃ gap, body = gap ++ dropSeparators body ∧ Seam (dropSeparators body) gap ∧
      ∀ m ∈ mark gap, m.isSeparator = true :=
  exists_skip uniform_isSeparator body

theorem head_mark_dropSeparators (body : List Char) :
    ∀ m ∈ (mark (dropSeparators body)).head?, m.isSeparator = false :=
  head_mark_skip uniform_isSeparator body

theorem isBlank_of_head {c : Char} (h : ∀ m ∈ (mark (c :: s)).head?, m.isSeparator = false) :
    isBlank c = false := by
  rw [← Bool.not_eq_true]
  intro hc
  rw [mark_cons (literal?_of_isBlank hc s)] at h
  have hsep := h _ rfl
  simp [Marked.isSeparator, Marked.isTrivia, hc] at hsep

/-- A text that starts with no separator falls apart behind the expression that starts it. -/
theorem headExpression_split {c : Char}
    (hsep : ∀ m ∈ (mark (c :: s)).head?, m.isSeparator = false) :
    ∃ p, c :: s = c :: p ++ (headExpression (c :: s)).2 ∧
      (headExpression (c :: s)).1 = c :: trimRight p ∧ Seam (headExpression (c :: s)).2 (c :: p) ∧
      expressionLength 0 (mark (c :: s)) = (c :: p).length := by
  have hpos := expressionLength_mark_pos (List.cons_ne_nil c s) hsep
  have hle := expressionLength_mark_le (c :: s)
  have hcode : ∀ m, (mark (c :: s))[expressionLength 0 (mark (c :: s))]? = some m → m.2 = .code :=
    fun m hm => expressionLength_code hm
  rw [headExpression, Nat.max_eq_left hpos]
  obtain ⟨k, hk⟩ := Nat.exists_eq_add_of_le' hpos
  rw [hk] at hcode hle ⊢
  refine ⟨s.take k, ?_, ?_, seam_of_boundary hcode, ?_⟩
  · rw [← List.take_succ_cons, List.take_append_drop]
  · rw [List.take_succ_cons, trim_cons (isBlank_of_head hsep)]
  · rw [← List.take_succ_cons, List.length_take_of_le hle]

/-- A text that is one expression to its end is the only sibling. -/
theorem siblings_whole {c : Char} (hsep : ∀ m ∈ (mark (c :: s)).head?, m.isSeparator = false)
    (hif : headConditional? (c :: s) = none)
    (hlength : expressionLength 0 (mark (c :: s)) = (c :: s).length)
    (htrim : trim (c :: s) = c :: s) : siblings (c :: s) = [.expression (c :: s)] := by
  have hdrop : dropSeparators (c :: s) = c :: s := skip_of_head hsep
  have hhead : headExpression (c :: s) = (c :: s, []) := by
    have hpos : 1 ≤ (c :: s).length := Nat.succ_pos _
    rw [headExpression, hlength, Nat.max_eq_left hpos, List.take_length, List.drop_length, htrim]
  rw [siblings_expression hdrop hif, hhead, siblings_nil rfl]

theorem exists_covers (body : List Char) :
    ∃ ps, ps.map Placed.sibling = siblings body ∧ Covers body ps := by
  obtain ⟨gap, hbody, hseam, hgap⟩ := exists_dropSeparators body
  have hhead := head_mark_dropSeparators body
  cases hd : dropSeparators body with
  | nil =>
    rw [hd, List.append_nil] at hbody
    subst hbody
    exact ⟨[], (siblings_nil hd).symm, covers_nil hgap⟩
  | cons c s =>
    rw [hd] at hbody hseam hhead
    have hle : (c :: s).length ≤ body.length := hd ▸ dropSeparators_length_le body
    cases hc : headConditional? (c :: s) with
    | some found =>
      obtain ⟨conditional, rest⟩ := found
      have hlt := (headConditional?_length hc).1
      obtain ⟨ps, hps, hcovers⟩ := exists_covers rest
      rw [siblings_conditional hd hc]
      rw [headConditional?, Option.ite_none_right_eq_some] at hc
      obtain ⟨p, hp, hextends, hseam'⟩ := Conditional.read?_extends hc.1 hc.2
      have hne : p ≠ [] := by
        rintro rfl
        rw [hp] at hlt
        exact absurd hlt (Nat.lt_irrefl _)
      rw [hp] at hbody hseam
      refine ⟨_, ?_, hbody ▸ hcovers.cons hgap hseam hseam' hne (.conditional hextends)⟩
      rw [List.map_cons, List.map_map, ← hps]
      rfl
    | none =>
      obtain ⟨p, hp, htext, hseam', -⟩ := headExpression_split hhead
      have hlt : (headExpression (c :: s)).2.length < (c :: s).length := by
        simp only [headExpression, List.length_drop, List.length_cons]
        omega
      have htrim : c :: trimRight p = trim (c :: p) := (trim_cons (isBlank_of_head hhead) p).symm
      obtain ⟨ps, hps, hcovers⟩ := exists_covers (headExpression (c :: s)).2
      rw [siblings_expression hd hc, htext, htrim]
      rw [hp] at hbody hseam
      have hextends : Sibling.Extends (.expression (trim (c :: p))) (c :: p) :=
        .expression (htrim ▸ List.cons_ne_nil c _)
      have hcons := hcovers.cons hgap hseam hseam' (List.cons_ne_nil c p) hextends
      refine ⟨_, ?_, hbody ▸ hcons⟩
      rw [List.map_cons, List.map_map, ← hps]
      rfl
termination_by body.length
decreasing_by
  · exact Nat.lt_of_lt_of_le hlt hle
  · exact Nat.lt_of_lt_of_le hlt hle

theorem siblings_eq_nil_iff : siblings body = [] ↔ ∀ m ∈ mark body, m.isSeparator = true := by
  obtain ⟨ps, hps, hcovers⟩ := exists_covers body
  constructor
  · intro hnil m hm
    rw [hnil, List.map_eq_nil_iff] at hps
    subst hps
    obtain ⟨k, hk⟩ := List.mem_iff_getElem?.1 hm
    exact hcovers.between k m hk (List.forall_mem_nil _)
  · intro hall
    apply siblings_nil
    rw [dropSeparators, separatorLength, List.takeWhile_eq_self_iff.2 hall, length_mark,
      List.drop_length]

theorem parseBlock_eq_nil_iff (st : Settings) :
    parseBlock st body = [] ↔ ∀ m ∈ mark body, m.isSeparator = true := by
  rw [parseBlock_eq, List.map_eq_nil_iff, siblings_eq_nil_iff]

end ViewHierarchy
