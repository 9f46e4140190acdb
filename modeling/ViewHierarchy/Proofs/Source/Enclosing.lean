import ViewHierarchy.Source.Delimiter
import ViewHierarchy.Proofs.Source.Marking

/-! Brackets and what they enclose, read off the marks between them. -/
namespace ViewHierarchy.Source

theorem closeOffset?_code {opening closing : Char} {depth k : Nat} {ms : List Marked}
    (h : closeOffset? opening closing depth ms = some k) : ms[k]? = some (closing, .code) := by
  induction ms generalizing depth k with
  | nil => cases h
  | cons m rest ih =>
    rw [closeOffset?] at h
    split at h
    · obtain ⟨j, hj, rfl⟩ := Option.map_eq_some_iff.1 h
      exact ih hj
    · split at h
      · next hm =>
        split at h
        · cases h
          exact congrArg some hm
        · obtain ⟨j, hj, rfl⟩ := Option.map_eq_some_iff.1 h
          exact ih hj
      · obtain ⟨j, hj, rfl⟩ := Option.map_eq_some_iff.1 h
        exact ih hj

theorem literal?_of_closing? {o c : Char} (h : closing? o = some c) (s : List Char) :
    literal? (o :: s) = none := by
  unfold closing? at h
  split at h
  · exact literal?_eq_none s (by decide) (by decide)
  · exact literal?_eq_none s (by decide) (by decide)
  · exact literal?_eq_none s (by decide) (by decide)
  · cases h

theorem partner?_cons {o c : Char} (h : closing? o = some c) (s : List Char) :
    partner? (o :: s) = (closeOffset? o c 1 (mark s)).map (· + 1) := by
  rw [partner?, h, mark_cons (literal?_of_closing? h s)]
  exact if_pos rfl

/-- A bracket encloses the text before the first bracket that brings its depth back to zero. -/
theorem enclosed?_eq_some_iff {o : Char} {s inner rest : List Char} :
    enclosed? (o :: s) = some (inner, rest) ↔
      ∃ c, closing? o = some c ∧ s = inner ++ c :: rest ∧
        closeOffset? o c 1 (mark s) = some inner.length := by
  constructor
  · intro h
    obtain ⟨k, hk, he⟩ := Option.map_eq_some_iff.1 h
    cases hc : closing? o with
    | none => simp [partner?, hc] at hk
    | some c =>
      rw [partner?_cons hc] at hk
      obtain ⟨j, hj, rfl⟩ := Option.map_eq_some_iff.1 hk
      obtain ⟨s₁, s₂, rfl, rfl⟩ := split_at_mark (closeOffset?_code hj)
      rw [List.take_succ_cons, List.drop_one, List.tail_cons, List.drop_succ_cons,
        List.take_left, List.drop_append, List.drop_of_length_le (Nat.le_add_right _ _),
        Nat.add_sub_cancel_left, List.nil_append] at he
      obtain ⟨rfl, rfl⟩ := Prod.mk.inj he
      exact ⟨c, rfl, rfl, hj⟩
  · rintro ⟨c, hc, rfl, h⟩
    rw [enclosed?, partner?_cons hc, h]
    simp only [Option.map_some, List.take_succ_cons, List.drop_succ_cons, List.drop_zero,
      List.take_left, List.drop_length_add_append, List.drop_one, List.tail_cons]

theorem partner?_of_enclosed? {o : Char} {s inner rest : List Char}
    (h : enclosed? (o :: s) = some (inner, rest)) :
    partner? (o :: s) = some (inner.length + 1) := by
  obtain ⟨c, hc, -, hk⟩ := enclosed?_eq_some_iff.1 h
  rw [partner?_cons hc, hk, Option.map_some]

end ViewHierarchy.Source
