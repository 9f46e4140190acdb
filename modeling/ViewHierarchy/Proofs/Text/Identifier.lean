import ViewHierarchy.Proofs.Text.Blank
import ViewHierarchy.Text.Word

/-! ASCII identifiers, which every class of characters that readers use takes the same way. -/
namespace ViewHierarchy.Text

def isAsciiStart (c : Char) : Bool := c.isAlpha || c == '_'

def isAsciiRest (c : Char) : Bool := c.isAlphanum || c == '_'

def isIdentifier (s : List Char) : Bool := s.head?.any isAsciiStart && s.all isAsciiRest

def keywords : List (List Char) := ["if".toList, "else".toList, "in".toList]

/-- Identifiers that can be names. -/
def isName (s : List Char) : Bool := isIdentifier s && !keywords.contains s

theorem isAsciiRest_of_start {c : Char} (h : isAsciiStart c = true) : isAsciiRest c = true := by
  simp only [isAsciiStart, isAsciiRest, Char.isAlphanum, Bool.or_eq_true] at h ⊢
  rcases h with h | h
  · exact .inl (.inl h)
  · exact .inr h

theorem toNat_of_isAsciiRest {c : Char} (h : isAsciiRest c = true) :
    (48 ≤ c.toNat ∧ c.toNat < 58) ∨ (65 ≤ c.toNat ∧ c.toNat < 91) ∨ c.toNat = 95 ∨
      (97 ≤ c.toNat ∧ c.toNat < 123) := by
  have hrest : (c.isUpper || c.isLower || c.isDigit || c == '_') = true := h
  simp only [Bool.or_eq_true, beq_iff_eq] at hrest
  rcases hrest with ((hupper | hlower) | hdigit) | rfl
  · obtain ⟨hlo, hhi⟩ := of_decide_eq_true hupper
    exact .inr (.inl ⟨UInt32.le_iff_toNat_le.1 hlo,
      Nat.lt_succ_of_le (UInt32.le_iff_toNat_le.1 hhi)⟩)
  · obtain ⟨hlo, hhi⟩ := Bool.and_eq_true_iff.1 hlower
    exact .inr (.inr (.inr ⟨UInt32.le_iff_toNat_le.1 (of_decide_eq_true hlo),
      Nat.lt_succ_of_le (UInt32.le_iff_toNat_le.1 (of_decide_eq_true hhi))⟩))
  · obtain ⟨hlo, hhi⟩ := Bool.and_eq_true_iff.1 hdigit
    exact .inl ⟨UInt32.le_iff_toNat_le.1 (of_decide_eq_true hlo),
      Nat.lt_succ_of_le (UInt32.le_iff_toNat_le.1 (of_decide_eq_true hhi))⟩
  · exact .inr (.inr (.inl rfl))

theorem inIntervals_of_rest {lo hi n : Nat} {rest : List (Nat × Nat)} (h : lo ≤ n)
    (hr : inIntervals rest n = true) : inIntervals ((lo, hi) :: rest) n = true := by
  simp only [inIntervals, h, hr, decide_true, Bool.or_true, Bool.and_self]

theorem isWord_of_isAsciiRest {c : Char} (h : isAsciiRest c = true) : isWord c = true := by
  rw [isWord, isAlphanumeric, alphanumericIntervals]
  rcases toNat_of_isAsciiRest h with h | h | h | h
  · rw [inIntervals_of_mem _ h.1 h.2, Bool.true_or]
  · rw [inIntervals_of_rest (by omega) (inIntervals_of_mem _ h.1 h.2), Bool.true_or]
  · rw [show c = '_' from Char.toNat_inj.1 h, beq_self_eq_true, Bool.or_true]
  · rw [inIntervals_of_rest (by omega) (inIntervals_of_rest (by omega)
      (inIntervals_of_mem _ h.1 h.2)), Bool.true_or]

theorem isBlank_of_isAsciiRest {c : Char} (h : isAsciiRest c = true) : isBlank c = false := by
  have := toNat_of_isAsciiRest h
  simp only [isBlank, Bool.or_eq_false_iff, decide_eq_false_iff_not, beq_eq_false_iff_ne]
  omega

theorem isIdentifier_iff {s : List Char} : isIdentifier s = true ↔
    (∃ c t, s = c :: t ∧ isAsciiStart c = true) ∧ ∀ c ∈ s, isAsciiRest c = true := by
  cases s with
  | nil => simp [isIdentifier]
  | cons c t => simp [isIdentifier]

theorem isWord_of_isIdentifier {s : List Char} (h : isIdentifier s = true) :
    ∀ c ∈ s, isWord c = true :=
  fun c hc => isWord_of_isAsciiRest ((isIdentifier_iff.1 h).2 c hc)

theorem trimLeft_identifier {s : List Char} (h : isIdentifier s = true) (t : List Char) :
    trimLeft (s ++ t) = s ++ t := by
  obtain ⟨⟨c, s, rfl, hc⟩, -⟩ := isIdentifier_iff.1 h
  exact trimLeft_kept (isBlank_of_isAsciiRest (isAsciiRest_of_start hc)) _

theorem isIdentifier_of_isName {s : List Char} (h : isName s = true) : isIdentifier s = true :=
  (Bool.and_eq_true _ _ ▸ h).1

theorem isAsciiRest_of_isName {s : List Char} (h : isName s = true) :
    ∀ c ∈ s, isAsciiRest c = true :=
  (isIdentifier_iff.1 (isIdentifier_of_isName h)).2

theorem isWord_of_isName {s : List Char} (h : isName s = true) : ∀ c ∈ s, isWord c = true :=
  isWord_of_isIdentifier (isIdentifier_of_isName h)

theorem isBlank_of_isName {s : List Char} (h : isName s = true) : ∀ c ∈ s, isBlank c = false :=
  fun c hc => isBlank_of_isAsciiRest (isAsciiRest_of_isName h c hc)

theorem ne_nil_of_isName {s : List Char} (h : isName s = true) : s ≠ [] := ne_of_class h rfl

theorem stops_of_isName {s : List Char} (h : isName s = true) :
    Stops isBlank s ∧ Stops isBlank s.reverse := by
  constructor
  · exact stops_of_forall (isBlank_of_isName h)
  · apply stops_of_forall
    intro c hc
    exact isBlank_of_isName h c (List.mem_reverse.1 hc)

theorem collapse_name {s : List Char} (h : isName s = true) : collapse s = s :=
  collapse_word (ne_nil_of_isName h) (isBlank_of_isName h)

end ViewHierarchy.Text
