import ViewHierarchy.Proofs.Source.Cutting
import ViewHierarchy.Proofs.Source.Enclosing
import ViewHierarchy.Proofs.Text.Identifier

/-! Texts whose brackets are nested. What looks for a closing bracket passes over them. -/
namespace ViewHierarchy.Source

def Marked.isBracket (m : Marked) : Bool := m.2 == .code && (isOpening m.1 || isClosing m.1)

inductive Nested : List Marked → Prop
  | nil : Nested []
  | skip {m ms} : m.isBracket = false → Nested ms → Nested (m :: ms)
  | pair {o c inner rest} : closing? o = some c → Nested inner → Nested rest →
      Nested ((o, .code) :: (inner ++ (c, .code) :: rest))

theorem Nested.append {ms ns : List Marked} (hm : Nested ms) (hn : Nested ns) :
    Nested (ms ++ ns) := by
  induction hm with
  | nil => exact hn
  | skip h _ ih => exact .skip h ih
  | pair h hi _ _ ih =>
    rw [List.cons_append, List.append_assoc, List.cons_append]
    exact .pair h hi ih

theorem brackets_of_closing? {o c : Char} (h : closing? o = some c) :
    isOpening o = true ∧ isClosing c = true ∧ isClosing o = false ∧ isOpening c = false := by
  unfold closing? at h
  split at h <;> cases h <;> decide

theorem closing?_inj {o o' c : Char} (h : closing? o = some c) (h' : closing? o' = some c) :
    o = o' := by
  unfold closing? at h h'
  split at h <;> cases h <;> split at h' <;> cases h' <;> rfl

theorem ne_of_isBracket {m : Marked} {c : Char} (h : m.isBracket = false)
    (hc : (isOpening c || isClosing c) = true) : m ≠ (c, .code) := by
  rintro rfl
  simp [Marked.isBracket] at h
  simp [h] at hc

theorem closeOffset?_skip {o c : Char} {d : Nat} {m : Marked} (ho : m ≠ (o, .code))
    (hc : m ≠ (c, .code)) (ms : List Marked) :
    closeOffset? o c d (m :: ms) = (closeOffset? o c d ms).map (· + 1) := by
  rw [closeOffset?, if_neg ho, if_neg hc]

/-- Counting on twice is counting on by the sum. -/
theorem map_add_map_add (x : Option Nat) {a b n : Nat} (h : a + b = n) :
    (x.map (· + a)).map (· + b) = x.map (· + n) := by
  subst h
  rw [Option.map_map]
  exact congrArg (x.map ·) (funext fun k => Nat.add_assoc k a b)

/-- Inside a bracket nested brackets do not move the depth. -/
theorem Nested.closeOffset?_append {o c : Char} (hc : closing? o = some c) {ms : List Marked}
    (h : Nested ms) (d : Nat) (rest : List Marked) :
    closeOffset? o c (d + 1) (ms ++ rest) =
      (closeOffset? o c (d + 1) rest).map (· + ms.length) := by
  obtain ⟨hopen, hclose, hoc, hco⟩ := brackets_of_closing? hc
  induction h generalizing d rest with
  | nil => simp
  | @skip m ms hm _ ih =>
    rw [List.cons_append, closeOffset?_skip, ih, map_add_map_add _ rfl, List.length_cons]
    · apply ne_of_isBracket hm
      rw [hopen, Bool.true_or]
    · apply ne_of_isBracket hm
      rw [hclose, Bool.or_true]
  | @pair o' c' inner after hc' _ _ ihi ihr =>
    obtain ⟨hopen', hclose', hoc', hco'⟩ := brackets_of_closing? hc'
    have hne : c' ≠ o := by
      rintro rfl
      exact Bool.false_ne_true (hco'.symm.trans hopen)
    have hlen : ∀ k : Option Nat,
        (((k.map (· + after.length)).map (· + 1)).map (· + inner.length)).map (· + 1) =
          k.map (· + ((o', Role.code) :: (inner ++ (c', .code) :: after)).length) := by
      intro k
      rw [map_add_map_add _ rfl, map_add_map_add _ rfl]
      refine map_add_map_add _ ?_
      simp only [List.length_cons, List.length_append]
      omega
    rw [List.cons_append, List.append_assoc, List.cons_append]
    by_cases he : o' = o
    · subst he
      cases hc.symm.trans hc'
      rw [closeOffset?, if_pos rfl, ihi (d + 1), closeOffset?, if_neg (by simpa using hne),
        if_pos rfl, if_neg (by omega), Nat.add_sub_cancel, ihr, hlen]
    · have hce : c' ≠ c := by
        rintro rfl
        exact he (closing?_inj hc' hc)
      have hoe : o' ≠ c := by
        rintro rfl
        exact Bool.false_ne_true (hoc'.symm.trans hclose)
      rw [closeOffset?_skip (by simpa using he) (by simpa using hoe), ihi,
        closeOffset?_skip (by simpa using hne) (by simpa using hce), ihr, hlen]

variable {s t : List Char} {o c : Char} {m : Marked} {ms ns : List Marked}

theorem Nested.tail (h : Nested (m :: ms)) (hm : m.isBracket = false) : Nested ms := by
  cases h with
  | skip _ h => exact h
  | pair hc _ _ =>
    rw [Marked.isBracket, (brackets_of_closing? hc).1] at hm
    cases hm

theorem nested_of_forall (h : ∀ m ∈ ms, m.isBracket = false) : Nested ms := by
  induction ms with
  | nil => exact .nil
  | cons m ms ih =>
    obtain ⟨hm, hms⟩ := List.forall_mem_cons.1 h
    exact .skip hm (ih hms)

theorem Nested.of_append (h : Nested (ms ++ ns)) (hms : ∀ m ∈ ms, m.isBracket = false) :
    Nested ns := by
  induction ms with
  | nil => exact h
  | cons m ms ih =>
    obtain ⟨hm, hrest⟩ := List.forall_mem_cons.1 hms
    exact ih (h.tail hm) hrest

theorem closeOffset?_extend {d k : Nat} (h : closeOffset? o c d ms = some k)
    (ns : List Marked) : closeOffset? o c d (ms ++ ns) = some k := by
  induction ms generalizing d k with
  | nil => cases h
  | cons m ms ih =>
    rw [closeOffset?] at h
    rw [List.cons_append, closeOffset?]
    split at h
    · next hm =>
      obtain ⟨j, hj, rfl⟩ := Option.map_eq_some_iff.1 h
      rw [if_pos hm, ih hj, Option.map_some]
    · next hm =>
      rw [if_neg hm]
      split at h
      · next hm' =>
        rw [if_pos hm']
        split at h
        · next hd => rw [if_pos hd, h]
        · next hd =>
          obtain ⟨j, hj, rfl⟩ := Option.map_eq_some_iff.1 h
          rw [if_neg hd, ih hj, Option.map_some]
      · next hm' =>
        obtain ⟨j, hj, rfl⟩ := Option.map_eq_some_iff.1 h
        rw [if_neg hm', ih hj, Option.map_some]

/-- More text behind a bracket that closes stays behind it. -/
theorem enclosed?_append {inner rest : List Char} (h : enclosed? (o :: s) = some (inner, rest))
    (ht : mark s <+: mark (s ++ t)) :
    enclosed? (o :: (s ++ t)) = some (inner, rest ++ t) := by
  obtain ⟨c, hc, rfl, hk⟩ := enclosed?_eq_some_iff.1 h
  refine enclosed?_eq_some_iff.2 ⟨c, hc, by rw [List.append_assoc, List.cons_append], ?_⟩
  obtain ⟨more, hmore⟩ := ht
  rw [← hmore]
  exact closeOffset?_extend hk _

theorem Nested.closeOffset?_closing (h : Nested ms) (hc : closing? o = some c)
    (rest : List Marked) : closeOffset? o c 1 (ms ++ (c, .code) :: rest) = some ms.length := by
  have hne : c ≠ o := by
    rintro rfl
    exact Bool.false_ne_true ((brackets_of_closing? hc).2.2.2.symm.trans
      (brackets_of_closing? hc).1)
  rw [h.closeOffset?_append hc 0, closeOffset?, if_neg (by simpa using hne), if_pos rfl,
    if_pos (Nat.le_refl 1)]
  simp

/-- A bracket of a nested text closes, and what follows it is nested. -/
theorem Nested.exists_enclosed (h : Nested (mark (o :: s))) (hc : closing? o = some c) :
    ∃ inner rest, enclosed? (o :: s) = some (inner, rest) ∧ s = inner ++ c :: rest ∧
      Seam rest (o :: (inner ++ [c])) ∧ Nested (mark rest) := by
  rw [mark_cons (literal?_of_closing? hc s)] at h
  generalize hm : (o, Role.code) :: mark s = ms at h
  cases h with
  | nil => cases hm
  | @skip m ms hno _ =>
    cases hm
    rw [Marked.isBracket, (brackets_of_closing? hc).1] at hno
    cases hno
  | @pair o' c' ms ns hc' hinner hrest =>
    obtain ⟨ho, hs⟩ := List.cons.inj hm
    cases ho
    cases hc.symm.trans hc'
    have hk := hinner.closeOffset?_closing hc ns
    rw [← hs] at hk
    obtain ⟨inner, rest, rfl, hlen⟩ := split_at_mark (closeOffset?_code hk)
    rw [← hlen] at hk
    obtain ⟨hseam, hl⟩ := seam_of_code (closeOffset?_code hk)
    rw [hseam.mark_append, mark_cons hl] at hs
    obtain ⟨-, hs⟩ := List.append_inj hs (by rw [length_mark, hlen])
    refine ⟨inner, rest, enclosed?_eq_some_iff.2 ⟨c, hc, rfl, hk⟩, rfl, ?_, ?_⟩
    · exact .code (literal?_of_closing? hc _) (hseam.snoc hl)
    · rw [(List.cons.inj hs).2]
      exact hrest

/-- A text with nested brackets and no literals. -/
structure Tidy (s : List Char) : Prop where
  plain : Plain s
  nested : Nested (s.map (·, .code))

def isOrdinary (c : Char) : Bool := !(['(', ')', '[', ']', '{', '}', '"', '/'].contains c)

theorem isOrdinary_iff {c : Char} : isOrdinary c = true ↔
    isOpening c = false ∧ isClosing c = false ∧ c ≠ '"' ∧ c ≠ '/' := by
  simp only [isOrdinary, isOpening, isClosing, Bool.not_eq_true', List.contains_cons,
    List.contains_nil, Bool.or_false, Bool.or_eq_false_iff, beq_eq_false_iff_ne]
  constructor
  · rintro ⟨h₁, h₂, h₃, h₄, h₅, h₆, h₇, h₈⟩
    exact ⟨⟨⟨h₁, h₃⟩, h₅⟩, ⟨⟨h₂, h₄⟩, h₆⟩, h₇, h₈⟩
  · rintro ⟨⟨⟨h₁, h₃⟩, h₅⟩, ⟨⟨h₂, h₄⟩, h₆⟩, h₇, h₈⟩
    exact ⟨h₁, h₂, h₃, h₄, h₅, h₆, h₇, h₈⟩

theorem isBracket_of_isOrdinary {c : Char} (h : isOrdinary c = true) :
    Marked.isBracket (c, .code) = false := by
  obtain ⟨hopen, hclose, -⟩ := isOrdinary_iff.1 h
  simp [Marked.isBracket, hopen, hclose]

theorem isOrdinary_of_class {p : Char → Bool} {c : Char}
    (hno : (['(', ')', '[', ']', '{', '}', '"', '/'].all fun d => !p d) = true) (h : p c = true) :
    isOrdinary c = true := by
  rw [isOrdinary, Bool.not_eq_true', ← Bool.not_eq_true, List.contains_iff_mem]
  intro hm
  have := List.all_eq_true.1 hno c hm
  rw [h] at this
  cases this

theorem isOrdinary_of_isAsciiRest {c : Char} (h : Text.isAsciiRest c = true) :
    isOrdinary c = true :=
  isOrdinary_of_class (by decide) h

theorem isOrdinary_of_isIdentifier {s : List Char} (h : Text.isIdentifier s = true) :
    ∀ c ∈ s, isOrdinary c = true :=
  fun c hc => isOrdinary_of_isAsciiRest ((Text.isIdentifier_iff.1 h).2 c hc)

theorem isOrdinary_of_isBlank {c : Char} (h : Text.isBlank c = true) : isOrdinary c = true :=
  isOrdinary_of_class (by decide) h

theorem Tidy.nil : Tidy [] := ⟨List.forall_mem_nil _, .nil⟩

theorem Tidy.append {s t : List Char} (hs : Tidy s) (ht : Tidy t) : Tidy (s ++ t) := by
  constructor
  · intro c hc
    rcases List.mem_append.1 hc with hc | hc
    · exact hs.plain c hc
    · exact ht.plain c hc
  · rw [List.map_append]
    exact hs.nested.append ht.nested

theorem Tidy.cons {c : Char} {s : List Char} (hc : isOrdinary c = true) (hs : Tidy s) :
    Tidy (c :: s) := by
  obtain ⟨-, -, hquote, hslash⟩ := isOrdinary_iff.1 hc
  constructor
  · rw [Plain, List.forall_mem_cons]
    exact ⟨⟨hquote, hslash⟩, hs.plain⟩
  · exact .skip (isBracket_of_isOrdinary hc) hs.nested

theorem tidy_of_ordinary {s : List Char} (h : ∀ c ∈ s, isOrdinary c = true) : Tidy s := by
  induction s with
  | nil => exact .nil
  | cons c s ih =>
    obtain ⟨hc, hs⟩ := List.forall_mem_cons.1 h
    exact .cons hc (ih hs)

theorem plain_of_closing? {o c : Char} (h : closing? o = some c) : Plain [o, c] := by
  unfold closing? at h
  split at h <;> cases h <;> simp [Plain]

theorem Tidy.pair {o c : Char} {s : List Char} (hc : closing? o = some c) (hs : Tidy s) :
    Tidy (o :: (s ++ [c])) := by
  constructor
  · intro d hd
    rw [List.mem_cons, List.mem_append, List.mem_singleton] at hd
    rcases hd with rfl | hd | rfl
    · exact plain_of_closing? hc d List.mem_cons_self
    · exact hs.plain d hd
    · exact plain_of_closing? hc d (List.mem_cons_of_mem _ List.mem_cons_self)
  · rw [List.map_cons, List.map_append]
    exact .pair hc hs.nested .nil

theorem Tidy.enclosed? {o c : Char} {s : List Char} (hc : closing? o = some c) (hs : Tidy s)
    (rest : List Char) : enclosed? (o :: (s ++ c :: rest)) = some (s, rest) := by
  apply enclosed?_eq_some_iff.2
  refine ⟨c, hc, rfl, ?_⟩
  have hplain := plain_of_closing? hc c (List.mem_cons_of_mem _ List.mem_cons_self)
  rw [hs.plain.mark_append, mark_cons (literal?_eq_none _ hplain.1 hplain.2),
    hs.nested.closeOffset?_closing hc, List.length_map]

theorem Tidy.enclosed?_round {s : List Char} (hs : Tidy s) (rest : List Char) :
    Source.enclosed? ('(' :: (s ++ ')' :: rest)) = some (s, rest) :=
  hs.enclosed? rfl rest

theorem Tidy.enclosed?_curly {s : List Char} (hs : Tidy s) (rest : List Char) :
    Source.enclosed? ('{' :: (s ++ '}' :: rest)) = some (s, rest) :=
  hs.enclosed? rfl rest

end ViewHierarchy.Source
