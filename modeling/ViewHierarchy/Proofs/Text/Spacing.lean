import Mathlib.Data.List.Chain
import ViewHierarchy.Proofs.Text.Line

/-! Texts whose words stand apart by single spaces. Collapsing the white space of a text makes it
such a text, and leaves such a text as it is. -/
namespace ViewHierarchy.Text

variable {s t word w : List Char} {c : Char} {ws : List (List Char)}

/-- White space occurs as single spaces only, and not at the start. -/
structure IsSpaced (s : List Char) : Prop where
  space : ∀ c ∈ s, isBlank c = true → c = ' '
  start : Stops isBlank s
  single : s.IsChain fun c d => isBlank c = false ∨ isBlank d = false

/-- The text does not end in white space. -/
def EndsKept (s : List Char) : Prop := Stops isBlank s.reverse

theorem EndsKept.append (h : EndsKept t) (hne : t ≠ []) (s : List Char) : EndsKept (s ++ t) := by
  rw [EndsKept, List.reverse_append]
  exact h.extend (List.reverse_ne_nil_iff.2 hne) _

theorem EndsKept.of_append (h : EndsKept (s ++ t)) : EndsKept t := by
  rw [EndsKept, List.reverse_append] at h
  exact h.of_prefix (List.prefix_append _ _)

theorem endsKept_trim (s : List Char) : EndsKept (trim s) := by
  rw [EndsKept, trim, trimRight, List.reverse_reverse]
  exact stops_dropWhile isBlank _

theorem EndsKept.getLast (h : EndsKept s) : ∀ c ∈ s.getLast?, isBlank c = false := by
  rwa [← List.head?_reverse]

theorem IsSpaced.of_prefix (h : IsSpaced t) (hs : s <+: t) : IsSpaced s :=
  ⟨fun c hc => h.space c (hs.subset hc), h.start.of_prefix hs, h.single.prefix hs⟩

theorem isSpaced_word (h : ∀ c ∈ s, isBlank c = false) : IsSpaced s := by
  refine ⟨fun c hc hblank => ?_, stops_of_forall h, ?_⟩
  · exact absurd ((h c hc).symm.trans hblank) Bool.false_ne_true
  · exact (List.pairwise_of_forall_mem_list fun c hc d _ => .inl (h c hc)).isChain

theorem IsSpaced.append_kept (h : IsSpaced s) (hc : isBlank c = false) : IsSpaced (s ++ [c]) := by
  have hword : IsSpaced [c] := isSpaced_word (List.forall_mem_singleton.2 hc)
  refine ⟨List.forall_mem_append.2 ⟨h.space, hword.space⟩, h.start.append hword.start, ?_⟩
  refine List.isChain_append.2 ⟨h.single, hword.single, fun _ _ d hd => ?_⟩
  cases hd
  exact .inr hc

/-- A space may stand between two texts if the first one is there and does not end in one. -/
theorem IsSpaced.append_space (hs : IsSpaced s) (hne : s ≠ []) (hend : EndsKept s)
    (ht : IsSpaced t) : IsSpaced (s ++ ' ' :: t) := by
  refine ⟨?_, hs.start.extend hne _, ?_⟩
  · refine List.forall_mem_append.2 ⟨hs.space, List.forall_mem_cons.2 ⟨fun _ => rfl, ht.space⟩⟩
  · refine List.isChain_append.2 ⟨hs.single, ?_, fun c hc _ _ => .inl (hend.getLast c hc)⟩
    exact List.isChain_cons.2 ⟨fun d hd => .inr (ht.start d hd), ht.single⟩

theorem isSpaced_joinWith (h : ∀ w ∈ ws, w ≠ [] ∧ ∀ c ∈ w, isBlank c = false) :
    IsSpaced (joinWith [' '] ws) ∧ EndsKept (joinWith [' '] ws) := by
  have hends : ∀ {w : List Char}, (∀ c ∈ w, isBlank c = false) → EndsKept w :=
    fun hw => stops_of_forall fun c hc => hw c (List.mem_reverse.1 hc)
  fun_induction joinWith [' '] ws with
  | case1 => exact ⟨isSpaced_word (List.forall_mem_nil _), stops_nil⟩
  | case2 w =>
    obtain ⟨-, hw⟩ := h w List.mem_cons_self
    exact ⟨isSpaced_word hw, hends hw⟩
  | case3 w w' rest ih =>
    obtain ⟨⟨hne, hw⟩, hrest⟩ := List.forall_mem_cons.1 h
    obtain ⟨hspaced, hend⟩ := ih hrest
    rw [List.append_assoc, List.singleton_append]
    refine ⟨(isSpaced_word hw).append_space hne (hends hw) hspaced, ?_⟩
    have hjoined : joinWith [' '] (w' :: rest) ≠ [] := by
      obtain ⟨⟨hne', -⟩, -⟩ := List.forall_mem_cons.1 hrest
      cases rest with
      | nil => exact hne'
      | cons w'' rest => simp [joinWith]
    rw [List.append_cons]
    exact hend.append hjoined _

theorem ne_nil_of_mem_words (h : w ∈ wordsFrom word s) : w ≠ [] := by
  fun_induction wordsFrom word s with
  | case1 => cases h
  | case2 word hne =>
    rw [List.mem_singleton.1 h]
    simpa using hne
  | case3 word c rest hc hempty ih => exact ih h
  | case4 word c rest hc hne ih =>
    rcases List.mem_cons.1 h with rfl | h
    · simpa using hne
    · exact ih h
  | case5 word c rest hc ih => exact ih h

theorem isSpaced_collapse (s : List Char) : IsSpaced (collapse s) ∧ EndsKept (collapse s) :=
  isSpaced_joinWith fun _ hw =>
    ⟨ne_nil_of_mem_words hw, isBlank_of_mem_words (List.forall_mem_nil _) hw⟩

/-- The words of a spaced text, joined again. The first of them may have been begun before. -/
theorem joinWith_wordsFrom (hspace : ∀ c ∈ s, isBlank c = true → c = ' ')
    (hstart : word = [] → Stops isBlank s)
    (hsingle : s.IsChain fun c d => isBlank c = false ∨ isBlank d = false) (hend : EndsKept s) :
    joinWith [' '] (wordsFrom word s) = word.reverse ++ s := by
  fun_induction wordsFrom word s with
  | case1 word hempty => rw [List.isEmpty_iff.1 hempty]; rfl
  | case2 word hne => rw [joinWith, List.append_nil]
  | case3 word c rest hc hempty ih =>
    have hkept := hstart (List.isEmpty_iff.1 hempty) c rfl
    exact absurd (hkept.symm.trans hc) Bool.false_ne_true
  | case4 word c rest hc hne ih =>
    obtain ⟨hspace', hrestspace⟩ := List.forall_mem_cons.1 hspace
    cases hspace' hc
    obtain ⟨hnext, hrestsingle⟩ := List.isChain_cons.1 hsingle
    have hstops : Stops isBlank rest := by
      intro d hd
      exact (hnext d hd).resolve_left (by decide)
    have hrest : rest ≠ [] := by
      rintro rfl
      exact absurd (hend ' ' rfl) (by decide)
    have hjoin := ih hrestspace (fun _ => hstops) hrestsingle
      (EndsKept.of_append (s := [' ']) hend)
    rw [List.reverse_nil, List.nil_append] at hjoin
    cases hwords : wordsFrom [] rest with
    | nil =>
      rw [hwords] at hjoin
      exact absurd hjoin.symm hrest
    | cons w ws =>
      rw [hwords] at hjoin
      rw [joinWith, hjoin, List.append_assoc, List.singleton_append]
  | case5 word c rest hc ih =>
    have hjoin := ih (List.forall_mem_cons.1 hspace).2 (fun h => absurd h (List.cons_ne_nil c word))
      hsingle.tail (EndsKept.of_append (s := [c]) hend)
    rw [hjoin, List.reverse_cons, List.append_assoc, List.singleton_append]

theorem collapse_eq_self_iff : collapse s = s ↔ IsSpaced s ∧ EndsKept s := by
  constructor
  · intro h
    rw [← h]
    exact isSpaced_collapse s
  · rintro ⟨h, hend⟩
    exact joinWith_wordsFrom h.space (fun _ => h.start) h.single hend

end ViewHierarchy.Text
