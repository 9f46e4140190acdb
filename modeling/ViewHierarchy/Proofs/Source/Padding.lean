import ViewHierarchy.Proofs.Source.Closing
import ViewHierarchy.Proofs.Source.Locality
import ViewHierarchy.Proofs.Source.Skipping

/-! White space around a text. It opens and closes nothing; only a literal that is open at the end
of the text takes it up. -/
namespace ViewHierarchy.Source
open Text (isBlank)

variable {p : Marked → Bool} {s v w : List Char} {o c : Char} {ms ns : List Marked}

/-- White space belongs to a class of marks, and so does every comment that it goes on with. -/
theorem skip_blank (hp : Uniform p) (hblank : ∀ c, isBlank c = true → p (c, .code) = true)
    (hw : ∀ c ∈ w, isBlank c = true) (s : List Char) :
    skip p (s ++ w) = if skip p s = [] then [] else skip p s ++ w := by
  have hnil : ∀ w : List Char, (∀ c ∈ w, isBlank c = true) → skip p w = [] := by
    intro w hw
    induction w with
    | nil => rfl
    | cons c w ih =>
      obtain ⟨hc, hw⟩ := List.forall_mem_cons.1 hw
      rw [skip_code (literal?_of_isBlank hc w), if_pos (hblank c hc), ih hw]
  induction s using lexeme_induction with
  | nil =>
    rw [List.nil_append, hnil w hw]
    rfl
  | code c s hl ih =>
    rw [List.cons_append, skip_code hl, skip_code (literal?_append_eq_none hl (head_of_blank hw))]
    split
    · exact ih
    · rw [if_neg (List.cons_ne_nil c s), List.cons_append]
  | literal s role n hl ih =>
    obtain ⟨m, hl', hm⟩ := literal?_extend hl w
    rw [skip_literal hp hl, skip_literal hp hl']
    split
    · rcases hm with rfl | ⟨rfl, hle⟩
      · rw [List.drop_append_of_le_length (literal?_le hl)]
        exact ih
      · -- The literal reaches the end of the text and takes up some of the white space.
        have hrest : skip p ((s ++ w).drop m) = [] := by
          rw [List.drop_append, List.drop_of_length_le hle, List.nil_append]
          exact hnil _ fun c hc => hw c (List.mem_of_mem_drop hc)
        have hskip : skip p (s.drop s.length) = [] := by rw [List.drop_length]; rfl
        rw [hrest, hskip, if_pos rfl]
    · rw [if_neg]
      rintro rfl
      cases hl

/-- A closing bracket is found behind marks that are put in front of it, if none is a bracket. -/
theorem closeOffset?_insert (hc : closing? o = some c)
    (hns : ∀ n ∈ ns, n.isBracket = false) {d : Nat}
    (h : closeOffset? o c d (ms ++ [(c, .code)]) = some ms.length) :
    closeOffset? o c d (ms ++ (ns ++ [(c, .code)])) = some (ms.length + ns.length) := by
  obtain ⟨hopen, hclose, -, -⟩ := brackets_of_closing? hc
  induction ms generalizing d with
  | nil =>
    rw [List.nil_append] at h ⊢
    induction ns with
    | nil => exact h
    | cons n ns ih =>
      obtain ⟨hn, hns⟩ := List.forall_mem_cons.1 hns
      rw [List.cons_append, closeOffset?_skip, ih hns, Option.map_some, List.length_cons,
        Nat.add_assoc]
      · exact ne_of_isBracket hn (by rw [hopen, Bool.true_or])
      · exact ne_of_isBracket hn (by rw [hclose, Bool.or_true])
  | cons m ms ih =>
    have hcount : ∀ {x : Option Nat}, x.map (· + 1) = some (m :: ms).length → x = some ms.length := by
      intro x hx
      obtain ⟨k, rfl, hk⟩ := Option.map_eq_some_iff.1 hx
      rw [Nat.succ.inj hk]
    have hsum : ms.length + ns.length + 1 = (m :: ms).length + ns.length := by
      rw [List.length_cons, Nat.add_right_comm]
    rw [List.cons_append, closeOffset?] at h
    rw [List.cons_append, closeOffset?]
    split at h
    · next hm => rw [if_pos hm, ih (hcount h), Option.map_some, hsum]
    · next hm =>
      rw [if_neg hm]
      split at h
      · next hm' =>
        rw [if_pos hm']
        split at h
        · cases h
        · next hd => rw [if_neg hd, ih (hcount h), Option.map_some, hsum]
      · next hm' => rw [if_neg hm', ih (hcount h), Option.map_some, hsum]

theorem isInert_of_closing? (h : closing? o = some c) : isInert c = true := by
  unfold closing? at h
  split at h <;> cases h <;> rfl

theorem isApart_of_isBlank (h : isBlank c = true) : isApart c = true := by
  refine isApart_iff.2 ⟨?_, ?_, ?_⟩ <;> rintro rfl <;> cases h

theorem isBracket_of_blank (hw : ∀ c ∈ w, isBlank c = true) :
    ∀ m ∈ mark w, m.isBracket = false := by
  have hordinary : ∀ c ∈ w, isOrdinary c = true := fun c hc => isOrdinary_of_isBlank (hw c hc)
  rw [(tidy_of_ordinary hordinary).plain.mark]
  intro m hm
  obtain ⟨c, hc, rfl⟩ := List.mem_map.1 hm
  exact isBracket_of_isOrdinary (hordinary c hc)

theorem seam_of_blank (hw : ∀ c ∈ w, isBlank c = true) (t : List Char) : Seam t w :=
  (tidy_of_ordinary fun c hc => isOrdinary_of_isBlank (hw c hc)).plain.seam t

/-- White space around a text changes no bracket of it. -/
theorem Fills.padded (h : Fills o c s) (hc : closing? o = some c)
    (hv : ∀ d ∈ v, isBlank d = true) (hw : ∀ d ∈ w, isBlank d = true) :
    Fills o c (v ++ (s ++ w)) := by
  have hmark : mark [c] = [(c, .code)] := by
    have hplain := plain_of_closing? hc c (List.mem_cons_of_mem o List.mem_cons_self)
    rw [mark_cons (literal?_eq_none _ hplain.1 hplain.2), mark_nil]
  rw [fills_iff hc] at h ⊢
  have hseam := (seam_of_code (closeOffset?_code h)).1
  have hseam' : Seam (w ++ [c]) s := by
    cases w with
    | nil => exact hseam
    | cons d w =>
      have hd := isApart_of_isBlank (hw d List.mem_cons_self)
      exact hseam.replace_inert (isInert_of_closing? hc) hd (w ++ [c])
  rw [hseam.mark_append, hmark, ← length_mark s] at h
  have hclose := closeOffset?_insert hc (isBracket_of_blank hw) h
  rw [← hmark, ← (seam_of_blank hw [c]).mark_append, ← hseam'.mark_append] at hclose
  have htext : v ++ (s ++ w) ++ [c] = v ++ (s ++ (w ++ [c])) := by
    rw [List.append_assoc, List.append_assoc]
  have hlength : (v ++ (s ++ w)).length = (mark s).length + (mark w).length + (mark v).length := by
    simp only [List.length_append, length_mark]
    omega
  rw [htext, (seam_of_blank hv _).mark_append,
    (nested_of_forall (isBracket_of_blank hv)).closeOffset?_append hc, hclose, Option.map_some,
    hlength]

end ViewHierarchy.Source
