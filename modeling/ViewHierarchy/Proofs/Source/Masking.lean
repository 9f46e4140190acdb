import ViewHierarchy.Proofs.Source.Marking

/-! A masked text is all code, and masking goes through every cut at a character that is no
white space of the mask. -/
namespace ViewHierarchy.Source

theorem mask_cons {c : Char} {s : List Char} (h : literal? (c :: s) = none) :
    mask (c :: s) = c :: mask s := by
  rw [mask, mark_cons h]
  rfl

theorem masked_of_ne_code {c : Char} {role : Role} (h : role ≠ .code) :
    Marked.masked (c, role) = ' ' ∨ Marked.masked (c, role) = '\n' := by
  cases role with
  | code => exact absurd rfl h
  | string | comment =>
    by_cases hc : c = '\n'
    · exact .inr (if_pos hc)
    · exact .inl (if_neg hc)

theorem code_of_masked {m : Marked} (hspace : m.masked ≠ ' ') (hline : m.masked ≠ '\n') :
    m = (m.masked, .code) := by
  obtain ⟨c, role⟩ := m
  by_cases h : role = .code
  · subst h
    rfl
  · rcases masked_of_ne_code (c := c) h with h | h
    · exact absurd h hspace
    · exact absurd h hline

theorem head?_mask (s : List Char) :
    (mask s).head? = s.head? ∨ (mask s).head? = some ' ' ∨ (mask s).head? = some '\n' := by
  cases s with
  | nil => exact .inl rfl
  | cons c rest =>
    cases h : literal? (c :: rest) with
    | none => exact .inl (by rw [mask_cons h]; rfl)
    | some p =>
      obtain ⟨role, n⟩ := p
      obtain ⟨hpos, hrole⟩ := literal?_pos h
      obtain ⟨k, rfl⟩ := Nat.exists_eq_add_of_le' hpos
      rw [mask, mark_literal h, List.take_succ_cons]
      rcases masked_of_ne_code (c := c) hrole with h | h
      · exact .inr (.inl (congrArg some h))
      · exact .inr (.inr (congrArg some h))

theorem plain_masked {ms : List Marked} (h : ∀ m ∈ ms, m.2 ≠ .code) :
    Plain (ms.map Marked.masked) := by
  intro c hc
  obtain ⟨m, hm, rfl⟩ := List.mem_map.1 hc
  rcases masked_of_ne_code (c := m.1) (h m hm) with h | h <;> rw [h] <;> decide

/-- Masking leaves no opening of a literal behind. -/
theorem mark_mask (s : List Char) : mark (mask s) = (mask s).map (·, .code) := by
  induction s using lexeme_induction with
  | nil => rfl
  | code c s hl ih =>
    have hm : literal? (c :: mask s) = none := by
      obtain ⟨hquote, hslash⟩ := literal?_eq_none_iff.1 hl
      refine literal?_eq_none_iff.2 ⟨hquote, fun hc => ?_⟩
      rcases head?_mask s with h | h | h <;> rw [h]
      · exact hslash hc
      · decide
      · decide
    rw [mask_cons hl, mark_cons hm, ih, List.map_cons]
  | literal s role n hl ih =>
    have hp : Plain (((s.take n).map (·, role)).map Marked.masked) := by
      apply plain_masked
      intro m hm
      obtain ⟨c, -, rfl⟩ := List.mem_map.1 hm
      exact (literal?_pos hl).2
    have he : mask s = ((s.take n).map (·, role)).map Marked.masked ++ mask (s.drop n) := by
      rw [mask, mark_literal hl, List.map_append, mask]
    rw [he, hp.mark_append, ih, List.map_append]

theorem masked_code (s : List Char) : (s.map (·, Role.code)).map Marked.masked = s := by
  rw [List.map_map]
  exact List.map_id s

/-- Masking twice is masking once. -/
theorem mask_mask (s : List Char) : mask (mask s) = mask s := by
  rw [mask, mark_mask, masked_code]

/-- A text falls apart where its mask does, at a character that is no white space of the mask. -/
theorem mask_split {s a b : List Char} {c : Char} (h : mask s = a ++ c :: b) (hspace : c ≠ ' ')
    (hline : c ≠ '\n') :
    ∃ s₁ s₂, s = s₁ ++ c :: s₂ ∧ mark s = mark s₁ ++ (c, .code) :: mark s₂ ∧
      mask s₁ = a ∧ mask s₂ = b := by
  have hm : ((mark s)[a.length]?).map Marked.masked = some c := by
    rw [← List.getElem?_map, ← mask, h, List.getElem?_append_right (Nat.le_refl _), Nat.sub_self]
    rfl
  obtain ⟨m, hmark, rfl⟩ := Option.map_eq_some_iff.1 hm
  rw [code_of_masked hspace hline] at hmark
  obtain ⟨s₁, s₂, rfl, hlen⟩ := split_at_mark hmark
  have hsplit := mark_split (hlen ▸ hmark)
  refine ⟨s₁, s₂, rfl, hsplit, ?_⟩
  rw [mask, hsplit, List.map_append, List.map_cons] at h
  obtain ⟨ha, hb⟩ := List.append_inj h (by rw [List.length_map, length_mark, hlen])
  exact ⟨ha, (List.cons.inj hb).2⟩

end ViewHierarchy.Source
