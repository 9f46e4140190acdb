import ViewHierarchy.Proofs.Source.Masking
import ViewHierarchy.Proofs.Source.Nesting

/-! The running brace level of a text. A brace closes where the level behind it first falls below
zero, so what a pair of braces encloses is balanced. -/
namespace ViewHierarchy.Source

variable {s t inner rest : List Char} {d : Int}

def braceStep (c : Char) : Int := if c = '{' then 1 else if c = '}' then -1 else 0

/-- Braces opened less braces closed. -/
def braceLevel (s : List Char) : Int := s.count '{' - s.count '}'

@[simp] theorem braceLevel_nil : braceLevel [] = 0 := rfl

@[simp] theorem braceLevel_cons (c : Char) (s : List Char) :
    braceLevel (c :: s) = braceStep c + braceLevel s := by
  simp only [braceLevel, braceStep, List.count_cons, beq_iff_eq]
  split
  · next h =>
    rw [if_neg (by rw [h]; decide)]
    omega
  · split <;> omega

@[simp] theorem braceLevel_append (s t : List Char) :
    braceLevel (s ++ t) = braceLevel s + braceLevel t := by
  simp only [braceLevel, List.count_append]
  omega

/-- No closing brace is without its opening one, and none is left open. -/
structure Balanced (s : List Char) : Prop where
  nonneg : ∀ p, p <+: s → 0 ≤ braceLevel p
  closed : braceLevel s = 0

/-- From level `d` on the text comes back to zero and never falls below. -/
structure Returns (d : Int) (s : List Char) : Prop where
  nonneg : ∀ p, p <+: s → 0 ≤ d + braceLevel p
  closed : d + braceLevel s = 0

theorem returns_zero : Returns 0 s ↔ Balanced s := by
  constructor
  · rintro ⟨hn, hc⟩
    simp only [Int.zero_add] at hn hc
    exact ⟨hn, hc⟩
  · rintro ⟨hn, hc⟩
    constructor
    · simpa only [Int.zero_add] using hn
    · simpa only [Int.zero_add] using hc

theorem Returns.start (h : Returns d s) : 0 ≤ d := by
  simpa using h.nonneg [] List.nil_prefix

theorem returns_nil : Returns d [] ↔ d = 0 := by
  constructor
  · intro h
    simpa using h.closed
  · rintro rfl
    constructor
    · intro p hp
      rw [List.prefix_nil.1 hp]
      simp
    · simp

theorem returns_cons {c : Char} :
    Returns d (c :: s) ↔ 0 ≤ d ∧ Returns (d + braceStep c) s := by
  constructor
  · intro h
    refine ⟨h.start, ?_, ?_⟩
    · intro p hp
      have := h.nonneg (c :: p) ((List.prefix_cons_inj c).2 hp)
      rw [braceLevel_cons] at this
      omega
    · have := h.closed
      rw [braceLevel_cons] at this
      omega
  · rintro ⟨hd, h⟩
    constructor
    · intro p hp
      rcases List.prefix_cons_iff.1 hp with rfl | ⟨q, rfl, hq⟩
      · simpa using hd
      · have := h.nonneg q hq
        rw [braceLevel_cons]
        omega
    · have := h.closed
      rw [braceLevel_cons]
      omega

instance decidableReturns (d : Int) : (s : List Char) → Decidable (Returns d s)
  | [] => decidable_of_iff _ returns_nil.symm
  | c :: s =>
    have := decidableReturns (d + braceStep c) s
    decidable_of_iff _ returns_cons.symm

instance (s : List Char) : Decidable (Balanced s) := decidable_of_iff _ returns_zero

/-- A text that ends below zero has a brace where it first gets there. -/
theorem exists_returns (hd : 0 ≤ d) (h : d + braceLevel s < 0) :
    ∃ inner rest, s = inner ++ '}' :: rest ∧ Returns d inner := by
  induction s generalizing d with
  | nil =>
    rw [braceLevel_nil] at h
    omega
  | cons c s ih =>
    by_cases hfall : c = '}' ∧ d = 0
    · obtain ⟨rfl, rfl⟩ := hfall
      exact ⟨[], s, rfl, returns_nil.2 rfl⟩
    · have hstep : 0 ≤ d + braceStep c := by
        unfold braceStep
        split
        · omega
        · split
          · next hc =>
            have : d ≠ 0 := fun h => hfall ⟨hc, h⟩
            omega
          · omega
      rw [braceLevel_cons] at h
      obtain ⟨inner, rest, rfl, hr⟩ := ih hstep (by omega)
      exact ⟨c :: inner, rest, rfl, returns_cons.2 ⟨hd, hr⟩⟩

theorem exists_balanced (h : braceLevel s < 0) :
    ∃ inner rest, s = inner ++ '}' :: rest ∧ Balanced inner := by
  obtain ⟨inner, rest, hs, hr⟩ := exists_returns (Int.le_refl 0) (by simpa using h)
  exact ⟨inner, rest, hs, returns_zero.1 hr⟩

theorem closeOffset?_eq_length_iff (d : Nat) (ms rest : List Marked) :
    closeOffset? '{' '}' (d + 1) (ms ++ ('}', .code) :: rest) = some ms.length ↔
      Returns d (ms.map Marked.masked) := by
  induction ms generalizing d with
  | nil =>
    rw [List.map_nil, returns_nil, List.nil_append, closeOffset?, if_neg (by simp), if_pos rfl]
    cases d with
    | zero => simp
    | succ d =>
      simp
      omega
  | cons m ms ih =>
    have hmap : ∀ k, Option.map (· + 1) k = some (m :: ms).length ↔ k = some ms.length := by
      simp
    rw [List.cons_append, List.map_cons, returns_cons]
    by_cases hopen : m = ('{', .code)
    · subst hopen
      rw [closeOffset?, if_pos rfl, hmap, ih]
      simp [Marked.masked, braceStep]
    · by_cases hclose : m = ('}', .code)
      · subst hclose
        rw [closeOffset?, if_neg hopen, if_pos rfl]
        cases d with
        | zero =>
          have hfall : ¬Returns (0 + -1) (ms.map Marked.masked) := fun h => by
            have := h.start
            omega
          simpa [Marked.masked, braceStep] using hfall
        | succ d =>
          have hstep : ((d + 1 : Nat) : Int) + braceStep (Marked.masked ('}', .code)) = d := by
            change ((d + 1 : Nat) : Int) + -1 = d
            omega
          rw [if_neg (by omega), hmap, Nat.add_sub_cancel, ih, hstep]
          exact (and_iff_right (Int.natCast_nonneg _)).symm
      · have hstep : braceStep m.masked = 0 := by
          rw [braceStep, if_neg, if_neg]
          · exact fun h => hclose (h ▸ code_of_masked (by rw [h]; decide) (by rw [h]; decide))
          · exact fun h => hopen (h ▸ code_of_masked (by rw [h]; decide) (by rw [h]; decide))
        rw [closeOffset?_skip hopen hclose, hmap, ih, hstep]
        simp

/-- A brace encloses the text up to the first brace that takes the level below zero. -/
theorem enclosed?_curly_iff : enclosed? ('{' :: s) = some (inner, rest) ↔
    s = inner ++ '}' :: rest ∧ mark s = mark inner ++ ('}', .code) :: mark rest ∧
      Balanced (mask inner) := by
  have hiff : ∀ ms ns, closeOffset? '{' '}' 1 (ms ++ ('}', .code) :: ns) = some ms.length ↔
      Balanced (ms.map Marked.masked) := by
    intro ms ns
    rw [← returns_zero]
    exact closeOffset?_eq_length_iff 0 ms ns
  rw [enclosed?_eq_some_iff]
  constructor
  · rintro ⟨c, hc, rfl, hk⟩
    cases hc
    have hmark := mark_split (closeOffset?_code hk)
    rw [hmark, ← length_mark inner] at hk
    exact ⟨rfl, hmark, (hiff _ _).1 hk⟩
  · rintro ⟨rfl, hmark, hb⟩
    refine ⟨'}', rfl, rfl, ?_⟩
    rw [hmark, ← length_mark inner]
    exact (hiff _ _).2 hb

/-- A text without strings and comments, such as a masked one. -/
def IsCode (s : List Char) : Prop := mark s = s.map (·, .code)

theorem isCode_mask (s : List Char) : IsCode (mask s) := mark_mask s

theorem IsCode.append (h : IsCode (s ++ t)) : IsCode s ∧ IsCode t := by
  cases t with
  | nil => exact ⟨by rwa [List.append_nil] at h, rfl⟩
  | cons c t =>
    have hc : (mark (s ++ c :: t))[s.length]? = some (c, .code) := by
      rw [h]
      simp
    rw [IsCode, (seam_of_code hc).1.mark_append, List.map_append] at h
    exact List.append_inj h (by simp)

theorem IsCode.cons {c : Char} (h : IsCode (c :: s)) : IsCode s :=
  (IsCode.append (s := [c]) h).2

theorem IsCode.of_suffix (h : IsCode t) (hs : s <:+ t) : IsCode s := by
  obtain ⟨p, rfl⟩ := hs
  exact h.append.2

theorem IsCode.enclosed?_curly_iff (h : IsCode s) : enclosed? ('{' :: s) = some (inner, rest) ↔
    s = inner ++ '}' :: rest ∧ Balanced inner := by
  rw [Source.enclosed?_curly_iff]
  constructor
  · rintro ⟨rfl, -, hb⟩
    refine ⟨rfl, ?_⟩
    rwa [mask, h.append.1, masked_code] at hb
  · rintro ⟨rfl, hb⟩
    obtain ⟨hi, hr⟩ := h.append
    refine ⟨rfl, ?_, ?_⟩
    · rw [h, hi, hr.cons, List.map_append, List.map_cons]
    · rwa [mask, hi, masked_code]

end ViewHierarchy.Source
