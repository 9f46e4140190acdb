import ViewHierarchy.Proofs.Source.Nesting
import ViewHierarchy.Proofs.Source.Trivia

/-! Brackets are matched by what stands up to the closing one: what follows it does not matter, and
white space behind a text closes nothing. -/
namespace ViewHierarchy.Source
open Text

variable {o c : Char} {s w inner rest : List Char}

theorem closeOffset?_take {d k : Nat} {ms : List Marked} (h : closeOffset? o c d ms = some k) :
    closeOffset? o c d (ms.take (k + 1)) = some k := by
  induction ms generalizing d k with
  | nil => cases h
  | cons m ms ih =>
    rw [closeOffset?] at h
    rw [List.take_succ_cons, closeOffset?]
    split at h
    · next hm =>
      obtain ⟨j, hj, rfl⟩ := Option.map_eq_some_iff.1 h
      rw [if_pos hm, ih hj, Option.map_some]
    · next hm =>
      rw [if_neg hm]
      split at h
      · next hm' =>
        rw [if_pos hm']
        split at h
        · next hd => rw [if_pos hd, h]
        · next hd =>
          obtain ⟨j, hj, rfl⟩ := Option.map_eq_some_iff.1 h
          rw [if_neg hd, ih hj, Option.map_some]
      · next hm' =>
        obtain ⟨j, hj, rfl⟩ := Option.map_eq_some_iff.1 h
        rw [if_neg hm', ih hj, Option.map_some]

/-- What a bracket encloses stays the same, whatever follows the closing bracket. -/
theorem enclosed?_local (h : enclosed? (o :: s) = some (inner, rest)) :
    ∃ c, closing? o = some c ∧ s = inner ++ c :: rest ∧
      ∀ more, enclosed? (o :: (inner ++ c :: more)) = some (inner, more) := by
  obtain ⟨c, hc, rfl, hk⟩ := enclosed?_eq_some_iff.1 h
  refine ⟨c, hc, rfl, fun more => enclosed?_eq_some_iff.2 ⟨c, hc, rfl, ?_⟩⟩
  obtain ⟨hseam, hl⟩ := seam_of_code (closeOffset?_code hk)
  have hplain := plain_of_closing? hc c (List.mem_cons_of_mem o List.mem_cons_self)
  have hl' : literal? (c :: more) = none := literal?_eq_none more hplain.1 hplain.2
  have htake := closeOffset?_take hk
  rw [hseam.mark_append, mark_cons hl, List.append_cons, List.take_left'] at htake
  · rw [(hseam.replace more).mark_append, mark_cons hl', List.append_cons]
    exact closeOffset?_extend htake _
  · rw [List.length_append, length_mark, List.length_singleton]

/-- The first of the two brackets around the text has its partner in the second. -/
def Fills (o c : Char) (s : List Char) : Prop :=
  partnerAt? (o :: (s ++ [c])) 0 = some (s.length + 1)

instance (o c : Char) (s : List Char) : Decidable (Fills o c s) :=
  inferInstanceAs (Decidable (_ = _))

theorem fills_iff (hc : closing? o = some c) :
    Fills o c s ↔ closeOffset? o c 1 (mark (s ++ [c])) = some s.length := by
  rw [Fills, partnerAt?, if_neg (by decide), Int.toNat_zero, List.drop_zero, partner?_cons hc,
    Option.map_map, Option.map_eq_some_iff]
  constructor
  · rintro ⟨k, hk, hlen⟩
    rw [hk, Nat.succ.inj hlen]
  · intro hk
    exact ⟨s.length, hk, rfl⟩

/-- A text that fills its brackets is what they enclose in every longer text. -/
theorem Fills.enclosed? (hs : Fills o c s) (hc : closing? o = some c) (rest : List Char) :
    enclosed? (o :: (s ++ c :: rest)) = some (s, rest) := by
  have hk := (fills_iff hc).1 hs
  obtain ⟨c', hc', -, hlocal⟩ := enclosed?_local (enclosed?_eq_some_iff.2 ⟨c, hc, rfl, hk⟩)
  cases hc.symm.trans hc'
  exact hlocal rest

theorem Tidy.fills (hs : Tidy s) (hc : closing? o = some c) : Fills o c s := by
  obtain ⟨c', hc', -, hk⟩ := enclosed?_eq_some_iff.1 (hs.enclosed? hc [])
  cases hc.symm.trans hc'
  exact (fills_iff hc).2 hk

theorem isBlank_of_closing? (h : closing? o = some c) : isBlank o = false ∧ isBlank c = false := by
  unfold closing? at h
  split at h <;> cases h <;> decide

theorem enclosed?_eq_none (h : closing? o = none) (s : List Char) : enclosed? (o :: s) = none := by
  rw [enclosed?, partner?, h]
  rfl

/-- The marks that white space behind a text adds to its own. -/
theorem exists_mark_blank (hw : ∀ c ∈ w, isBlank c = true) (s : List Char) :
    ∃ ms, mark (s ++ w) = mark s ++ ms ∧ ms.map Prod.fst = w ∧
      ∀ m ∈ ms, isBlank m.1 = true := by
  obtain ⟨ms, hms⟩ := mark_isPrefix (head_of_blank hw) s
  have htext := congrArg (List.map Prod.fst) hms
  rw [List.map_append, map_fst_mark, map_fst_mark] at htext
  have hfst : ms.map Prod.fst = w := List.append_cancel_left htext
  exact ⟨ms, hms.symm, hfst, fun m hm => hw m.1 (hfst ▸ List.mem_map_of_mem hm)⟩

/-- White space behind a text closes no bracket. -/
theorem enclosed?_blank (hw : ∀ c ∈ w, isBlank c = true) (s : List Char) :
    enclosed? (s ++ w) = (enclosed? s).map fun p => (p.1, p.2 ++ w) := by
  cases s with
  | nil =>
    cases w with
    | nil => rfl
    | cons o w =>
      have hnone : closing? o = none := by
        rw [← Option.not_isSome_iff_eq_none]
        intro hsome
        obtain ⟨c, hc⟩ := Option.isSome_iff_exists.1 hsome
        exact Bool.false_ne_true ((isBlank_of_closing? hc).1.symm.trans (hw o List.mem_cons_self))
      exact enclosed?_eq_none hnone w
  | cons o s =>
    cases h : enclosed? (o :: s) with
    | some p =>
      obtain ⟨inner, rest⟩ := p
      obtain ⟨c, -, rfl, hlocal⟩ := enclosed?_local h
      rw [List.cons_append, List.append_assoc, List.cons_append, hlocal]
      rfl
    | none =>
      rw [Option.map_none, ← Option.not_isSome_iff_eq_none, List.cons_append]
      intro hsome
      obtain ⟨⟨inner, rest⟩, h'⟩ := Option.isSome_iff_exists.1 hsome
      obtain ⟨c, hc, hs, hlocal⟩ := enclosed?_local h'
      have hnot : c ∉ w := by
        intro hmem
        exact Bool.false_ne_true ((isBlank_of_closing? hc).2.symm.trans (hw c hmem))
      -- The closing bracket is not white space, so it stands in the text.
      rcases List.append_eq_append_iff.1 hs with ⟨gap, -, rfl⟩ | ⟨behind, rfl, hbehind⟩
      · exact hnot (List.mem_append_right gap List.mem_cons_self)
      · cases behind with
        | nil =>
          rw [List.nil_append] at hbehind
          exact hnot (hbehind ▸ List.mem_cons_self)
        | cons d behind =>
          obtain ⟨rfl, -⟩ := List.cons.inj hbehind
          cases h.symm.trans (hlocal behind)

end ViewHierarchy.Source
