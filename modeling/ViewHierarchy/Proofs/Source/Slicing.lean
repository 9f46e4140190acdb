import ViewHierarchy.Proofs.Source.Locality
import ViewHierarchy.Proofs.Source.Matching

/-! Blocks cut out of their text. A bracket has its partner where the text between the two fills
them, whatever stands around; so a block is matched in every text that holds it, and strings,
comments and brackets inside it are the same before and after it is cut out. -/
namespace ViewHierarchy.Source

variable {s t before inner rest : List Char} {o c : Char} {i j k : Nat}

theorem Fills.closeOffset? (h : Fills o c inner) (hc : closing? o = some c) (rest : List Char) :
    closeOffset? o c 1 (mark (inner ++ c :: rest)) = some inner.length := by
  obtain ⟨c', hc', -, hk⟩ := enclosed?_eq_some_iff.1 (h.enclosed? hc rest)
  cases hc.symm.trans hc'
  exact hk

theorem fills_of_closeOffset? (hc : closing? o = some c)
    (h : closeOffset? o c 1 (mark (inner ++ c :: rest)) = some inner.length) : Fills o c inner := by
  obtain ⟨c', hc', -, hlocal⟩ := enclosed?_local (enclosed?_eq_some_iff.2 ⟨c, hc, rfl, h⟩)
  cases hc.symm.trans hc'
  obtain ⟨c', hc', -, hk⟩ := enclosed?_eq_some_iff.1 (hlocal [])
  cases hc.symm.trans hc'
  exact (fills_iff hc).2 hk

/-- A block in its text: two brackets, the second being the partner of the first, and what stands
before, between and behind them. -/
structure IsBlock (s before : List Char) (o : Char) (inner : List Char) (c : Char)
    (rest : List Char) : Prop where
  text : s = before ++ o :: (inner ++ c :: rest)
  pair : closing? o = some c
  fills : Fills o c inner

theorem IsBlock.partnerAt? (h : IsBlock s before o inner c rest) :
    partnerAt? s before.length = some (before.length + 1 + inner.length) := by
  obtain ⟨rfl, hc, hfills⟩ := h
  have ho : (before ++ o :: (inner ++ c :: rest))[before.length]? = some o := by
    rw [List.getElem?_append_right (Nat.le_refl _), Nat.sub_self, List.getElem?_cons_zero]
  refine partnerAt?_eq_some_iff.2 ⟨o, c, ho, hc, inner.length, rfl, ?_⟩
  rw [← List.drop_drop, List.drop_left, List.drop_succ_cons, List.drop_zero]
  exact hfills.closeOffset? hc rest

/-- A bracket with a partner makes a block. -/
theorem exists_isBlock (h : partnerAt? s i = some j) : ∃ before o inner c rest,
    IsBlock s before o inner c rest ∧ before.length = i ∧ before.length + 1 + inner.length = j := by
  obtain ⟨o, c, ho, hc, k, rfl, hk⟩ := partnerAt?_eq_some_iff.1 h
  obtain ⟨before, t, rfl, rfl⟩ := split_at_getElem? ho
  rw [← List.drop_drop, List.drop_left, List.drop_succ_cons, List.drop_zero] at hk
  obtain ⟨inner, rest, rfl, rfl⟩ := split_at_mark (closeOffset?_code hk)
  exact ⟨before, o, inner, c, rest, ⟨rfl, hc, fills_of_closeOffset? hc hk⟩, rfl, rfl⟩

/-- More text on either side of a block leaves it a block. -/
theorem IsBlock.surround (h : IsBlock s before o inner c rest) (u v : List Char) :
    IsBlock (u ++ s ++ v) (u ++ before) o inner c (rest ++ v) := by
  refine ⟨?_, h.pair, h.fills⟩
  rw [h.text]
  simp only [List.append_assoc, List.cons_append]

theorem IsBlock.slice (h : IsBlock s before o inner c rest) :
    (s.take (before.length + 1 + inner.length)).drop (before.length + 1) = inner := by
  rw [h.text, List.append_cons, ← List.append_assoc, List.take_left', List.drop_left']
  · rw [List.length_append, List.length_singleton]
  · simp only [List.length_append, List.length_singleton]

/-- No literal of the text crosses from the block to the bracket that closes it. -/
theorem IsBlock.seam (h : IsBlock s before o inner c rest) : Seam (c :: rest) inner :=
  (seam_of_code (closeOffset?_code (h.fills.closeOffset? h.pair rest))).1

/-- A block that stands inside a block of the text is one of what that block encloses. -/
theorem IsBlock.inside {before' inner' rest' : List Char} {o' c' : Char}
    (h : IsBlock s before o inner c rest) (h' : IsBlock s before' o' inner' c' rest')
    (hstart : before.length < before'.length)
    (hend : before'.length + 1 + inner'.length < before.length + 1 + inner.length) :
    ∃ gap behind, IsBlock inner gap o' inner' c' behind ∧
      before.length + 1 + gap.length = before'.length := by
  have hopening : before ++ [o] <+: s := ⟨inner ++ c :: rest, by rw [h.text, ← List.append_cons]⟩
  have hbefore' : before' <+: s := ⟨_, h'.text.symm⟩
  obtain ⟨gap, rfl⟩ := List.prefix_of_prefix_length_le hopening hbefore' (by
    rw [List.length_append, List.length_singleton]
    exact hstart)
  simp only [List.length_append, List.length_singleton] at hend
  have htail : inner ++ c :: rest = gap ++ o' :: (inner' ++ c' :: rest') := by
    have htext := h.text.symm.trans h'.text
    rw [List.append_cons, List.append_assoc (before ++ [o])] at htext
    exact List.append_cancel_left htext
  have hblock : gap ++ o' :: (inner' ++ [c']) <+: inner ++ c :: rest :=
    ⟨rest', by rw [htail]; simp only [List.append_assoc, List.cons_append, List.nil_append]⟩
  obtain ⟨behind, hinner⟩ := List.prefix_of_prefix_length_le hblock (List.prefix_append inner _) (by
    simp only [List.length_append, List.length_cons, List.length_nil]
    omega)
  refine ⟨gap, behind, ⟨?_, h'.pair, h'.fills⟩, ?_⟩
  · rw [← hinner]
    simp only [List.append_assoc, List.cons_append, List.nil_append]
  · simp only [List.length_append, List.length_singleton]

/-- A block inside what a block encloses has the same partner there and in the text. -/
theorem IsBlock.partnerAt?_inner_iff (h : IsBlock s before o inner c rest) (k l : Nat) :
    Source.partnerAt? inner k = some l ↔
      Source.partnerAt? s (before.length + 1 + k : Nat) = some (before.length + 1 + l) ∧
        l < inner.length := by
  constructor
  · intro hk
    obtain ⟨gap, o', inner', c', behind, hblock, rfl, rfl⟩ := exists_isBlock hk
    have houter := hblock.surround (before ++ [o]) (c :: rest)
    rw [List.append_assoc, List.append_assoc, List.singleton_append, ← h.text] at houter
    have hlength : (before ++ [o] ++ gap).length = before.length + 1 + gap.length := by
      rw [List.length_append, List.length_append, List.length_singleton]
    refine ⟨?_, ?_⟩
    · rw [← hlength, houter.partnerAt?]
      exact congrArg some (by omega)
    · rw [hblock.text, List.length_append, List.length_cons, List.length_append, List.length_cons]
      omega
  · rintro ⟨hk, hl⟩
    obtain ⟨before', o', inner', c', rest', hblock, hstart, hend⟩ := exists_isBlock hk
    obtain ⟨gap, behind, hinside, hgap⟩ := h.inside hblock (by omega) (by omega)
    have hpartner := hinside.partnerAt?
    rw [show gap.length = k by omega] at hpartner
    rw [hpartner]
    exact congrArg some (by omega)

theorem Seam.literal? (h : Seam t s) (hs : s ≠ []) : literal? (s ++ t) = literal? s := by
  cases h with
  | nil => exact absurd rfl hs
  | @code c s hl _ => exact hl.trans (literal?_none_of_append (s := c :: s) hl).symm
  | literal hl hn _ => exact hl.trans (literal?_of_append hl hn).symm

/-- A seam behind a text is one behind what is left of it where the scan stops. -/
theorem Seam.drop_stop (h : Seam t s) (hk : ScanStop s k) : Seam t (s.drop k) := by
  induction hk with
  | start => exact h
  | @character i _ hi hl ih =>
    have hnone := skipLiteral_eq_self_iff.1 hl
    rw [List.drop_eq_getElem_cons hi] at ih hnone
    exact (ih.tail hnone).2
  | @literal i _ hl ih =>
    obtain ⟨role, n, hlit, hskip⟩ := exists_literal_of_lt hl
    rw [hskip, ← List.drop_drop]
    exact (ih.drop hlit).2.2

/-- Where the scan stops in a text with a seam behind it, it goes on as if the text ended there. -/
theorem Seam.skipLiteral (h : Seam t s) (hk : ScanStop s k) (hlt : k < s.length) :
    skipLiteral (s ++ t) k = skipLiteral s k := by
  have hne : s.drop k ≠ [] := by
    rw [Ne, List.drop_eq_nil_iff]
    exact Nat.not_le.2 hlt
  rw [Source.skipLiteral, List.drop_append_of_le_length (Nat.le_of_lt hlt),
    (h.drop_stop hk).literal? hne, Source.skipLiteral]

theorem skipLiteral_append (p s : List Char) (k : Nat) :
    skipLiteral (p ++ s) (p.length + k) = p.length + skipLiteral s k := by
  rw [skipLiteral, ← List.drop_drop, List.drop_left, skipLiteral]
  cases literal? (s.drop k) with
  | none => rfl
  | some p => exact Nat.add_assoc _ _ _

/-- Inside a block the scan of what it encloses goes over the same literals as that of the text. -/
theorem IsBlock.skipLiteral (h : IsBlock s before o inner c rest) (hk : ScanStop inner k)
    (hlt : k < inner.length) :
    skipLiteral s (before.length + 1 + k) = before.length + 1 + skipLiteral inner k := by
  have hopening := skipLiteral_append (before ++ [o]) (inner ++ c :: rest) k
  rwa [← List.append_cons, ← h.text, h.seam.skipLiteral hk hlt, List.length_append,
    List.length_singleton] at hopening

/-- The literals of what a block encloses are those that its text has there. -/
theorem IsBlock.mask (h : IsBlock s before o inner c rest) :
    mask inner = ((mask (s.drop before.length)).take (inner.length + 1)).drop 1 := by
  have hmark : mark (s.drop before.length) = (o, .code) :: (mark inner ++ mark (c :: rest)) := by
    rw [h.text, List.drop_left, mark_cons (literal?_of_closing? h.pair _), h.seam.mark_append]
  have hlength : ((mark inner).map Marked.masked).length = inner.length := by
    rw [List.length_map, length_mark]
  rw [Source.mask, Source.mask, hmark, List.map_cons, List.map_append, List.take_succ_cons,
    List.take_left' hlength, List.drop_succ_cons, List.drop_zero]

/-- Matching is local. Where a bracket has its partner, it has it with any texts put before and
behind. What the two enclose has, cut out, the same mask as in its text read from the bracket on,
the same literals wherever the scan of it stops, and every bracket the same partner there as in the
text if that partner stands inside. -/
theorem partnerAt?_local (h : partnerAt? s i = some j) :
    (∀ u v, partnerAt? (u ++ s ++ v) (u.length + i : Nat) = some (u.length + j)) ∧
      ∃ inner, inner = (s.take j).drop (i + 1) ∧ inner.length = j - (i + 1) ∧
        mask inner = ((mask (s.drop i)).take (j - i)).drop 1 ∧
        (∀ k, ScanStop inner k → k < inner.length →
          skipLiteral s (i + 1 + k) = i + 1 + skipLiteral inner k) ∧
        ∀ k l : Nat, partnerAt? inner k = some l ↔
          partnerAt? s (i + 1 + k : Nat) = some (i + 1 + l) ∧ l < inner.length := by
  obtain ⟨before, o, inner, c, rest, hblock, rfl, rfl⟩ := exists_isBlock h
  refine ⟨?_, inner, hblock.slice.symm, ?_, ?_, ?_, ?_⟩
  · intro u v
    have houter := (hblock.surround u v).partnerAt?
    rw [List.length_append] at houter
    rw [houter]
    exact congrArg some (by omega)
  · omega
  · rw [hblock.mask]
    congr 2
    omega
  · intro k hk hlt
    exact hblock.skipLiteral hk hlt
  · exact hblock.partnerAt?_inner_iff

/-- A call whose first argument is a quoted bracket. -/
def bracketCall : List Char := "f(\")\", [b])".toList

/-- The call is put in front of a quote that opens a string and behind another bracket. -/
theorem partnerAt?_local_bracketCall : partnerAt? bracketCall (1 : Nat) = some 10 ∧
    partnerAt? (['('] ++ bracketCall ++ ['"']) (2 : Nat) = some 11 ∧
    ∃ inner, inner = "\")\", [b]".toList ∧ ScanStop inner 0 ∧ mask inner = "   , [b]".toList ∧
      skipLiteral inner 0 = 3 ∧ partnerAt? inner (5 : Nat) = some 7 := by
  have h : partnerAt? bracketCall (1 : Nat) = some 10 := by decide
  obtain ⟨haround, inner, hinner, -, hmask, hscan, hmatch⟩ := partnerAt?_local h
  have hcut : inner = "\")\", [b]".toList := hinner.trans (by decide)
  have hblank : ((mask (bracketCall.drop 1)).take (10 - 1)).drop 1 = "   , [b]".toList := by decide
  have hlong : 0 < inner.length := by
    rw [hcut]
    decide
  have hskip : 5 = 1 + 1 + skipLiteral inner 0 := hscan 0 .start hlong
  refine ⟨h, haround ['('] ['"'], inner, hcut, .start, hmask.trans hblank, by omega, ?_⟩
  refine (hmatch 5 7).2 ⟨by decide, ?_⟩
  rw [hcut]
  decide

end ViewHierarchy.Source
