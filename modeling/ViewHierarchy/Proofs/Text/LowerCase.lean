import Mathlib.Data.List.Infix
import ViewHierarchy.Text.LowerCase

/-! Lower-casing, and looking for a text case aside. Only the sigmas depend on what stands around
them, and only the dotted capital I becomes two letters; so lower-casing both texts finds one in the
other just where their letters agree one by one in lower case, unless one of the two comes in
between. -/
namespace ViewHierarchy.Text

variable {c d : Char} {s t p : List Char}

/-- The capital sigma and the two small ones. -/
def isSigma (c : Char) : Bool := ['Σ', 'σ', 'ς'].contains c

/-- The lower-case form of a letter on its own; for every sigma it is the one inside a word. -/
def foldChar (c : Char) : List Char := if isSigma c then ['σ'] else lowerChar c

/-- A text with each letter in the lower-case form that it has on its own. -/
def fold (s : List Char) : List Char := s.flatMap foldChar

/-- A part of the text is the given one when letters are compared by the lower-case forms that they
have on their own. -/
def HoldsInSomeCase (p s : List Char) : Prop := ∃ part, part <:+: s ∧ fold part = fold p

theorem fold_cons (c : Char) (s : List Char) : fold (c :: s) = foldChar c ++ fold s :=
  List.flatMap_cons

theorem fold_append (s t : List Char) : fold (s ++ t) = fold s ++ fold t := List.flatMap_append

theorem fold_singleton (c : Char) : fold [c] = foldChar c := List.append_nil _

theorem isSigma_iff : isSigma c = true ↔ c = 'Σ' ∨ c = 'σ' ∨ c = 'ς' := by
  simp [isSigma]

/-- A letter becomes one letter, by the run that covers it if there is one; the dotted capital I
becomes two. -/
theorem lowerChar_cases (c : Char) : c = 'İ' ∧ lowerChar c = ['i', '\u0307'] ∨
    ∃ d, lowerChar c = [d] ∧ (d = c ∨ ∃ r ∈ caseRuns, r.covers c.toNat = true ∧
      d = Char.ofNat (c.toNat + r.distance).toNat) := by
  rw [lowerChar]
  split
  · next h => exact .inl ⟨h, rfl⟩
  · split
    · next r hr =>
      have hcovers := List.find?_some hr
      exact .inr ⟨_, rfl, .inr ⟨r, List.mem_of_find?_eq_some hr, hcovers, rfl⟩⟩
    · exact .inr ⟨c, rfl, .inl rfl⟩

theorem foldChar_cases (c : Char) :
    c = 'İ' ∧ foldChar c = ['i', '\u0307'] ∨ ∃ d, foldChar c = [d] := by
  rw [foldChar]
  split
  · exact .inr ⟨'σ', rfl⟩
  · exact (lowerChar_cases c).imp_right fun ⟨d, h, _⟩ => ⟨d, h⟩

theorem toNat_ofNat {n : Nat} (h : Char.ofNat n ≠ '\x00') : (Char.ofNat n).toNat = n := by
  by_cases hn : n.isValidChar
  · rw [Char.ofNat, dif_pos hn]
    rfl
  · rw [Char.ofNat, dif_neg hn] at h
    exact absurd rfl h

theorem foldChar_ne_nil (c : Char) : foldChar c ≠ [] := by
  rcases foldChar_cases c with ⟨-, h⟩ | ⟨d, h⟩ <;> rw [h] <;> exact List.cons_ne_nil _ _

/-- The capital sigma is the only letter that a run takes to a sigma. -/
theorem caseRuns_sigma : (caseRuns.all fun r => ['Σ', 'σ', 'ς'].all fun c =>
    !r.covers (c.toNat - r.distance).toNat || (c.toNat - r.distance).toNat == 'Σ'.toNat) = true := by
  decide +kernel

theorem isSigma_of_mem_lowerChar (hd : d ∈ lowerChar c) (h : isSigma d = true) :
    isSigma c = true := by
  rcases lowerChar_cases c with ⟨-, hc⟩ | ⟨e, hc, hrun⟩
  · rw [hc] at hd
    rcases List.mem_pair.1 hd with rfl | rfl <;> cases h
  · rw [hc, List.mem_singleton] at hd
    subst hd
    rcases hrun with rfl | ⟨r, hr, hcovers, hd⟩
    · exact h
    · have hcode : d.toNat = (c.toNat + r.distance).toNat := by
        rw [hd]
        apply toNat_ofNat
        rw [← hd]
        rintro rfl
        cases h
      have hpos : 0 < d.toNat := by
        rcases isSigma_iff.1 h with rfl | rfl | rfl <;> decide
      have hsource : (d.toNat - r.distance).toNat = c.toNat := by omega
      have hcapital := List.all_eq_true.1 (List.all_eq_true.1 caseRuns_sigma r hr) d
        (List.contains_iff_mem.1 h)
      rw [hsource, hcovers, Bool.not_true, Bool.false_or, beq_iff_eq] at hcapital
      rw [Char.toNat_inj.1 hcapital]
      rfl

theorem not_sigma_of_mem_lowerChar (h : isSigma c = false) : ∀ d ∈ lowerChar c, isSigma d = false := by
  intro d hd
  rw [← Bool.not_eq_true]
  intro hsigma
  cases h.symm.trans (isSigma_of_mem_lowerChar hd hsigma)

theorem foldChar_sigma (h : isSigma c = true) : foldChar c = ['σ'] := if_pos h

theorem foldChar_of_not_sigma (h : isSigma c = false) : foldChar c = lowerChar c := by
  rw [foldChar, h]
  rfl

theorem lowerChar_sigma_small (h : isSigma c = true) (hc : c ≠ 'Σ') : lowerChar c = [c] := by
  rcases isSigma_iff.1 h with rfl | rfl | rfl
  · exact absurd rfl hc
  · decide
  · decide

/-- A sigma of any kind taken for another, and every other letter for itself. -/
def respell (x c : Char) : Char := if isSigma c then x else c

theorem map_respell_of_forall (x : Char) (h : ∀ c ∈ s, isSigma c = false) : s.map (respell x) = s := by
  rw [List.map_congr_left (g := id), List.map_id]
  intro c hc
  rw [respell, h c hc]
  rfl

/-- Lower-casing differs from folding in the kinds of the sigmas alone. -/
theorem map_respell_lowerAfter (before s : List Char) :
    (lowerAfter before s).map (respell 'σ') = fold s := by
  induction s generalizing before with
  | nil => rfl
  | cons c s ih =>
    rw [lowerAfter, List.map_append, ih, fold_cons]
    refine congrArg (· ++ fold s) ?_
    cases h : isSigma c with
    | false =>
      have hc : c ≠ 'Σ' := by
        rintro rfl
        cases h
      rw [if_neg hc, foldChar_of_not_sigma h]
      exact map_respell_of_forall _ (not_sigma_of_mem_lowerChar h)
    | true =>
      rw [foldChar_sigma h]
      by_cases hc : c = 'Σ'
      · rw [if_pos hc]
        split <;> rfl
      · rw [if_neg hc, lowerChar_sigma_small h hc, List.map_singleton, respell, if_pos h]

theorem map_respell_lower (s : List Char) : (lower s).map (respell 'σ') = fold s :=
  map_respell_lowerAfter [] s

theorem lower_eq_nil_iff : lower s = [] ↔ s = [] := by
  rw [← List.map_eq_nil_iff (f := respell 'σ'), map_respell_lower]
  constructor
  · intro h
    cases s with
    | nil => rfl
    | cons c s =>
      rw [fold_cons] at h
      exact absurd (List.append_eq_nil_iff.1 h).1 (foldChar_ne_nil c)
  · rintro rfl
    rfl

theorem lowerAfter_of_notMem (h : 'Σ' ∉ s) (before : List Char) :
    lowerAfter before s = s.flatMap lowerChar := by
  induction s generalizing before with
  | nil => rfl
  | cons c s ih =>
    rw [List.mem_cons, not_or] at h
    rw [lowerAfter, if_neg (Ne.symm h.1), ih h.2, List.flatMap_cons]

theorem lower_eq_fold (h : ∀ c ∈ s, isSigma c = false) : lower s = fold s := by
  have hcapital : 'Σ' ∉ s := by
    intro hmem
    cases h _ hmem
  rw [lower, lowerAfter_of_notMem hcapital, fold]
  exact List.flatMap_congr fun c hc => (foldChar_of_not_sigma (h c hc)).symm

theorem not_sigma_of_mem_fold (h : ∀ c ∈ s, isSigma c = false) : ∀ d ∈ fold s, isSigma d = false := by
  intro d hd
  obtain ⟨c, hc, hd⟩ := List.mem_flatMap.1 hd
  rw [foldChar_of_not_sigma (h c hc)] at hd
  exact not_sigma_of_mem_lowerChar (h c hc) d hd

/-- What holds no sigma does not come from a sigma that was taken for another. -/
theorem infix_of_infix_map_respell (h : ∀ c ∈ t, isSigma c = false)
    (ht : t <:+: s.map (respell 'σ')) : t <:+: s := by
  obtain ⟨part, hpart, rfl⟩ := List.infix_map_iff.1 ht
  rwa [map_respell_of_forall]
  intro c hc
  rw [← Bool.not_eq_true]
  intro hsigma
  have hno := h _ (List.mem_map_of_mem hc)
  rw [respell, if_pos hsigma] at hno
  cases hno

theorem HoldsInSomeCase.fold_isInfix (h : HoldsInSomeCase p s) : fold p <:+: fold s := by
  obtain ⟨part, ⟨before, behind, rfl⟩, hpart⟩ := h
  rw [← hpart, fold_append, fold_append]
  exact List.infix_append _ _ _

/-- A text without sigmas is found in lower case wherever its letters stand, case aside. -/
theorem HoldsInSomeCase.lower_isInfix (hp : ∀ c ∈ p, isSigma c = false)
    (h : HoldsInSomeCase p s) : lower p <:+: lower s := by
  rw [lower_eq_fold hp]
  apply infix_of_infix_map_respell (not_sigma_of_mem_fold hp)
  rw [map_respell_lower]
  exact h.fold_isInfix

/-- A folded text may be cut wherever the cut does not fall into a dotted capital I. -/
theorem exists_fold_cut {x y : List Char} (h : fold s = x ++ y)
    (hcut : x.getLast? ≠ some 'i' ∨ y.head? ≠ some '\u0307') :
    ∃ a b, s = a ++ b ∧ fold a = x ∧ fold b = y := by
  induction s generalizing x with
  | nil =>
    obtain ⟨rfl, rfl⟩ := List.append_eq_nil_iff.1 h.symm
    exact ⟨[], [], rfl, rfl, rfl⟩
  | cons c s ih =>
    cases x with
    | nil => exact ⟨[], c :: s, rfl, rfl, h⟩
    | cons d x =>
      rw [fold_cons] at h
      -- What is left of the first letter's form stands before the cut.
      have hrest : ∀ form, foldChar c = d :: form → ∀ x', x = form ++ x' → fold s = x' ++ y →
          ∃ a b, c :: s = a ++ b ∧ fold a = d :: x ∧ fold b = y := by
        intro form hform x' hx hs
        have hcut' : x'.getLast? ≠ some 'i' ∨ y.head? ≠ some '\u0307' := by
          refine hcut.imp_left fun hlast hlast' => hlast ?_
          rw [hx, ← List.cons_append, List.getLast?_append, hlast']
          rfl
        obtain ⟨a, b, rfl, ha, hb⟩ := ih hs hcut'
        exact ⟨c :: a, b, rfl, by rw [fold_cons, hform, ha, hx, List.cons_append], hb⟩
      rcases foldChar_cases c with ⟨-, hc⟩ | ⟨e, hc⟩
      · rw [hc] at h
        obtain ⟨rfl, htail⟩ := List.cons.inj h
        cases x with
        | nil =>
          have hy : y = '\u0307' :: fold s := htail.symm
          subst hy
          rcases hcut with hlast | hhead
          · exact absurd rfl hlast
          · exact absurd rfl hhead
        | cons d' x' =>
          obtain ⟨rfl, hs⟩ := List.cons.inj htail
          exact hrest _ hc x' rfl hs
      · rw [hc] at h
        obtain ⟨rfl, hs⟩ := List.cons.inj h
        exact hrest [] hc x rfl hs

/-- Lower-casing finds the text wherever its letters stand, case aside, and nowhere else: it holds
no sigma, and does not stand in the two letters that the dotted capital I becomes. -/
structure CaseSafe (p : List Char) : Prop where
  sigma : ∀ c ∈ p, isSigma c = false
  head : (fold p).head? ≠ some '\u0307'
  last : (fold p).getLast? ≠ some 'i'

theorem CaseSafe.holdsInSomeCase (hp : CaseSafe p) (h : lower p <:+: lower s) :
    HoldsInSomeCase p s := by
  cases hfold : fold p with
  | nil => exact ⟨[], List.nil_infix, hfold.symm⟩
  | cons d rest =>
    have hinfix := h.map (respell 'σ')
    rw [map_respell_lower, map_respell_lower] at hinfix
    obtain ⟨x, y, hxy⟩ := hinfix
    rw [List.append_assoc] at hxy
    have hhead : (fold p ++ y).head? ≠ some '\u0307' := by
      have hd := hp.head
      rw [hfold] at hd ⊢
      exact hd
    obtain ⟨before, b, rfl, -, hb⟩ := exists_fold_cut hxy.symm (.inr hhead)
    obtain ⟨part, behind, rfl, hpart, -⟩ := exists_fold_cut hb (.inl hp.last)
    exact ⟨part, ⟨before, behind, List.append_assoc _ _ _⟩, hpart⟩

theorem fold_map_respell {x : Char} (hx : isSigma x = true) (s : List Char) :
    fold (s.map (respell x)) = fold s := by
  induction s with
  | nil => rfl
  | cons c s ih =>
    rw [List.map_cons, fold_cons, fold_cons, ih, respell]
    split
    · next h => rw [foldChar_sigma hx, foldChar_sigma h]
    · rfl

/-- The sigma that stands for all sigmas of a text is the only one in its small letters. -/
theorem eq_of_mem_lower_respell {x : Char} (hx : isSigma x = true) (hsmall : x ≠ 'Σ')
    (hd : d ∈ lower (s.map (respell x))) (h : isSigma d = true) : d = x := by
  have hcapital : 'Σ' ∉ s.map (respell x) := by
    intro hmem
    obtain ⟨c, -, hc⟩ := List.mem_map.1 hmem
    rw [respell] at hc
    split at hc
    · exact hsmall hc
    · next hno =>
      subst hc
      exact hno rfl
  rw [lower, lowerAfter_of_notMem hcapital] at hd
  obtain ⟨e, he, hd⟩ := List.mem_flatMap.1 hd
  obtain ⟨c, -, rfl⟩ := List.mem_map.1 he
  have hsigma := isSigma_of_mem_lowerChar hd h
  have hrespell : respell x c = x := by
    rw [respell] at hsigma ⊢
    split
    · rfl
    · next hno =>
      rw [if_neg hno] at hsigma
      exact absurd hsigma hno
  rw [hrespell, lowerChar_sigma_small hx hsmall] at hd
  exact List.mem_singleton.1 hd

/-- A sigma stays one when a text is lower-cased. -/
theorem exists_sigma_lower (hc : c ∈ p) (hsigma : isSigma c = true) :
    ∃ d ∈ lower p, isSigma d = true := by
  have hmem : 'σ' ∈ (lower p).map (respell 'σ') := by
    rw [map_respell_lower, fold]
    refine List.mem_flatMap.2 ⟨c, hc, ?_⟩
    rw [foldChar_sigma hsigma]
    exact List.mem_singleton.2 rfl
  obtain ⟨d, hd, hrespell⟩ := List.mem_map.1 hmem
  refine ⟨d, hd, ?_⟩
  rw [respell] at hrespell
  split at hrespell
  · assumption
  · rw [hrespell]
    rfl

/-- A text with a sigma is missed where the sigma is of the other kind. -/
theorem exists_missed (hc : c ∈ p) (hsigma : isSigma c = true) :
    ∃ s, HoldsInSomeCase p s ∧ ¬lower p <:+: lower s := by
  have hlength : ∀ s, (lower s).length = (fold s).length := by
    intro s
    rw [← map_respell_lower, List.length_map]
  -- If it were found in both spellings, the two would have the same small letters.
  have hsame : ∀ x, isSigma x = true → lower p <:+: lower (p.map (respell x)) →
      lower p = lower (p.map (respell x)) := by
    intro x hx hfound
    apply hfound.eq_of_length
    rw [hlength, hlength, fold_map_respell hx]
  have hheld : ∀ x, isSigma x = true → HoldsInSomeCase p (p.map (respell x)) :=
    fun x hx => ⟨_, List.infix_refl _, fold_map_respell hx p⟩
  by_cases hinside : lower p <:+: lower (p.map (respell 'σ'))
  · refine ⟨p.map (respell 'ς'), hheld 'ς' rfl, fun hfinal => ?_⟩
    obtain ⟨d, hd, hd'⟩ := exists_sigma_lower hc hsigma
    have hσ := hd
    rw [hsame 'σ' rfl hinside] at hσ
    rw [hsame 'ς' rfl hfinal] at hd
    have hone := eq_of_mem_lower_respell (x := 'σ') rfl (by decide) hσ hd'
    have hother := eq_of_mem_lower_respell (x := 'ς') rfl (by decide) hd hd'
    exact absurd (hone.symm.trans hother) (by decide)
  · exact ⟨_, hheld 'σ' rfl, hinside⟩

theorem length_fold_le (h : s <:+: t) : (fold s).length ≤ (fold t).length := by
  obtain ⟨before, behind, rfl⟩ := h
  rw [fold_append, fold_append, List.length_append, List.length_append]
  omega

/-- A text is found in the two letters of a dotted capital I where it begins with the second. -/
theorem exists_found_head (hp : ∀ c ∈ p, isSigma c = false)
    (hhead : (fold p).head? = some '\u0307') :
    ∃ s, lower p <:+: lower s ∧ ¬HoldsInSomeCase p s := by
  cases p with
  | nil => cases hhead
  | cons c t =>
    have hc : foldChar c = ['\u0307'] := by
      rw [fold_cons] at hhead
      rcases foldChar_cases c with ⟨-, hc⟩ | ⟨d, hc⟩ <;> rw [hc] at hhead <;> cases hhead
      exact hc
    have hp' : ∀ d ∈ 'İ' :: t, isSigma d = false :=
      List.forall_mem_cons.2 ⟨rfl, fun d hd => hp d (List.mem_cons_of_mem c hd)⟩
    refine ⟨'İ' :: t, ?_, ?_⟩
    · rw [lower_eq_fold hp, lower_eq_fold hp', fold_cons, fold_cons, hc]
      exact (List.suffix_cons 'i' _).isInfix
    · rintro ⟨part, hpart, hfold⟩
      rw [fold_cons, hc] at hfold
      rcases List.infix_cons_iff.1 hpart with hstart | hinside
      · rcases List.prefix_cons_iff.1 hstart with rfl | ⟨rest, rfl, -⟩
        · cases hfold
        · cases hfold
      · have hlength := length_fold_le hinside
        rw [hfold, List.length_append, List.length_singleton] at hlength
        omega

/-- And where it ends in the first. -/
theorem exists_found_last (hp : ∀ c ∈ p, isSigma c = false)
    (hlast : (fold p).getLast? = some 'i') : ∃ s, lower p <:+: lower s ∧ ¬HoldsInSomeCase p s := by
  rcases List.eq_nil_or_concat p with rfl | ⟨t, c, rfl⟩
  · cases hlast
  · rw [List.concat_eq_append] at *
    have hc : foldChar c = ['i'] := by
      rw [fold_append, fold_singleton, List.getLast?_append] at hlast
      rcases foldChar_cases c with ⟨-, hc⟩ | ⟨d, hc⟩ <;> rw [hc] at hlast <;> cases hlast
      exact hc
    have hp' : ∀ d ∈ t ++ ['İ'], isSigma d = false := by
      intro d hd
      rcases List.mem_append.1 hd with hd | hd
      · exact hp d (List.mem_append_left _ hd)
      · cases List.mem_singleton.1 hd
        rfl
    refine ⟨t ++ ['İ'], ?_, ?_⟩
    · rw [lower_eq_fold hp, lower_eq_fold hp', fold_append, fold_append, fold_singleton, hc]
      exact ⟨[], ['\u0307'], by rw [List.nil_append, List.append_assoc]; rfl⟩
    · rintro ⟨part, hpart, hfold⟩
      rw [fold_append, fold_singleton, hc] at hfold
      rcases List.infix_concat_iff.1 hpart with hend | hinside
      · rcases List.suffix_concat_iff.1 hend with rfl | ⟨rest, rfl, -⟩
        · exact absurd hfold.symm (List.append_ne_nil_of_right_ne_nil _ (List.cons_ne_nil _ _))
        · rw [fold_append] at hfold
          have hends := congrArg List.getLast? hfold
          rw [List.getLast?_append, List.getLast?_append] at hends
          cases hends
      · have hlength := length_fold_le hinside
        rw [hfold, List.length_append, List.length_singleton] at hlength
        omega

/-- Lower-casing both texts finds the first wherever its letters stand in the second, case aside,
and only there, just for the texts that hold no sigma and stand in no dotted capital I. -/
theorem lower_isInfix_iff (p : List Char) :
    (∀ s, lower p <:+: lower s ↔ HoldsInSomeCase p s) ↔ CaseSafe p := by
  constructor
  · intro h
    have hsigma : ∀ c ∈ p, isSigma c = false := by
      intro c hc
      rw [← Bool.not_eq_true]
      intro hc'
      obtain ⟨s, hheld, hmissed⟩ := exists_missed hc hc'
      exact hmissed ((h s).2 hheld)
    refine ⟨hsigma, fun hhead => ?_, fun hlast => ?_⟩
    · obtain ⟨s, hfound, hnot⟩ := exists_found_head hsigma hhead
      exact hnot ((h s).1 hfound)
    · obtain ⟨s, hfound, hnot⟩ := exists_found_last hsigma hlast
      exact hnot ((h s).1 hfound)
  · intro hp s
    exact ⟨hp.holdsInSomeCase, HoldsInSomeCase.lower_isInfix hp.sigma⟩

end ViewHierarchy.Text
