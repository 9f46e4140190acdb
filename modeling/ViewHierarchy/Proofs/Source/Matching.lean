import ViewHierarchy.Proofs.Source.Scanning

/-! Counting one kind of bracket against matching all kinds with a stack. Where the stack finds a
partner the count finds the same one; what the count finds alone is the first place where as many
brackets of the kind are closed as were opened. -/
namespace ViewHierarchy.Source

/-- What a character of code makes of the closing brackets that are expected, the innermost first. A
bracket that closes out of turn leaves nothing to go on with. -/
def stackStep (expected : List Char) (c : Char) : Option (List Char) :=
  match closing? c with
  | some close => some (close :: expected)
  | none =>
    if isClosing c then
      match expected with
      | [] => none
      | close :: outer => if c = close then some outer else none
    else some expected

/-- Scans on from an offset, literals skipped, to where no closing bracket is expected any more. -/
def stackScan? (s expected : List Char) (i : Nat) : Option Nat :=
  if hi : i < s.length then
    if i < skipLiteral s i then stackScan? s expected (skipLiteral s i)
    else
      match stackStep expected s[i] with
      | none => none
      | some [] => some i
      | some (close :: outer) => stackScan? s (close :: outer) (i + 1)
  else none
termination_by s.length - i

/-- The partner of the bracket at an offset, all kinds of brackets matched with a stack. -/
def stackPartnerAt? (s : List Char) (i : Nat) : Option Nat :=
  if s[i]?.any isOpening then stackScan? s [] i else none

/-- The same scan over marks, one by one. -/
def stackOffset? : List Char → List Marked → Option Nat
  | _, [] => none
  | expected, (c, role) :: rest =>
    if role = .code then
      match stackStep expected c with
      | none => none
      | some [] => some 0
      | some (close :: outer) => (stackOffset? (close :: outer) rest).map (· + 1)
    else (stackOffset? expected rest).map (· + 1)

variable {s expected outer : List Char} {i j k : Nat} {o c close : Char} {m : Marked}
  {ms inner : List Marked} {d : Int}

theorem stackOffset?_literal (h : ∀ m ∈ ms, m.2 ≠ .code) (expected : List Char)
    (rest : List Marked) :
    stackOffset? expected (ms ++ rest) = (stackOffset? expected rest).map (· + ms.length) := by
  induction ms with
  | nil => simp
  | cons m ms ih =>
    obtain ⟨hm, hms⟩ := List.forall_mem_cons.1 h
    rw [List.cons_append, stackOffset?, if_neg hm, ih hms, map_add_map_add _ rfl, List.length_cons]

theorem stackScan?_eq (s expected : List Char) (i : Nat) :
    stackScan? s expected i = (stackOffset? expected (mark (s.drop i))).map (· + i) := by
  have hcode : ∀ i (hi : i < s.length), ¬i < skipLiteral s i →
      mark (s.drop i) = (s[i], .code) :: mark (s.drop (i + 1)) := by
    intro i hi hl
    exact mark_drop_code hi (Nat.le_antisymm (Nat.le_of_not_lt hl) (le_skipLiteral s i))
  fun_induction stackScan? s expected i with
  | case1 expected i hi hl ih =>
    obtain ⟨role, n, hlit, hskip⟩ := exists_literal_of_lt hl
    rw [ih, mark_literal hlit, stackOffset?_literal, List.length_map,
      List.length_take_of_le (literal?_le hlit), hskip, List.drop_drop,
      map_add_map_add _ (Nat.add_comm n i)]
    · intro m hm
      obtain ⟨c, -, rfl⟩ := List.mem_map.1 hm
      exact (literal?_pos hlit).2
  | case2 expected i hi hl hstep =>
    rw [hcode i hi hl, stackOffset?, if_pos rfl, hstep, Option.map_none]
  | case3 expected i hi hl hstep =>
    rw [hcode i hi hl, stackOffset?, if_pos rfl, hstep, Option.map_some, Nat.zero_add]
  | case4 expected i hi hl close outer hstep ih =>
    rw [hcode i hi hl, stackOffset?, if_pos rfl, hstep, ih, map_add_map_add _ (Nat.add_comm 1 i)]
  | case5 expected i hi =>
    rw [List.drop_of_length_le (Nat.le_of_not_lt hi), mark_nil, stackOffset?, Option.map_none]

theorem closing?_eq_none (h : isOpening c = false) : closing? c = none := by
  rw [← Option.not_isSome_iff_eq_none, Option.isSome_iff_exists]
  rintro ⟨d, hd⟩
  exact Bool.false_ne_true (h.symm.trans (brackets_of_closing? hd).1)

theorem stackStep_opening (h : closing? o = some c) (expected : List Char) :
    stackStep expected o = some (c :: expected) := by
  simp only [stackStep, h]

theorem stackStep_closing (h : isClosing c = true) (hc : isOpening c = false) :
    stackStep (close :: outer) c = if c = close then some outer else none := by
  simp only [stackStep, closing?_eq_none hc, h, if_true]

theorem stackStep_other (hopen : isOpening c = false) (hclose : isClosing c = false)
    (expected : List Char) : stackStep expected c = some expected := by
  simp only [stackStep, closing?_eq_none hopen, hclose, Bool.false_eq_true, if_false]

theorem stackOffset?_skip (hm : m.isBracket = false) (close : Char) (outer : List Char)
    (rest : List Marked) :
    stackOffset? (close :: outer) (m :: rest) =
      (stackOffset? (close :: outer) rest).map (· + 1) := by
  obtain ⟨c, role⟩ := m
  rw [stackOffset?]
  split
  · next hrole =>
    subst hrole
    obtain ⟨hopen, hclose⟩ : isOpening c = false ∧ isClosing c = false := by
      simpa [Marked.isBracket] using hm
    rw [stackStep_other hopen hclose]
  · rfl

theorem stackOffset?_opening (h : closing? o = some c) (expected : List Char)
    (rest : List Marked) :
    stackOffset? expected ((o, .code) :: rest) =
      (stackOffset? (c :: expected) rest).map (· + 1) := by
  rw [stackOffset?, if_pos rfl, stackStep_opening h]

theorem stackOffset?_close (h : closing? o = some c) (close : Char) (outer : List Char)
    (rest : List Marked) :
    stackOffset? (c :: close :: outer) ((c, .code) :: rest) =
      (stackOffset? (close :: outer) rest).map (· + 1) := by
  obtain ⟨-, hclose, -, hopen⟩ := brackets_of_closing? h
  rw [stackOffset?, if_pos rfl, stackStep_closing hclose hopen, if_pos rfl]

theorem stackOffset?_last (h : closing? o = some c) (rest : List Marked) :
    stackOffset? [c] ((c, .code) :: rest) = some 0 := by
  obtain ⟨-, hclose, -, hopen⟩ := brackets_of_closing? h
  rw [stackOffset?, if_pos rfl, stackStep_closing hclose hopen, if_pos rfl]

/-- Nested brackets leave the stack as it was. -/
theorem Nested.stackOffset?_append (h : Nested inner) (close : Char) (outer : List Char)
    (rest : List Marked) :
    stackOffset? (close :: outer) (inner ++ rest) =
      (stackOffset? (close :: outer) rest).map (· + inner.length) := by
  induction h generalizing close outer rest with
  | nil => simp
  | @skip m ms hm _ ih =>
    rw [List.cons_append, stackOffset?_skip hm, ih, map_add_map_add _ rfl, List.length_cons]
  | @pair o c inner after hc _ _ ihi ihr =>
    rw [List.cons_append, List.append_assoc, List.cons_append, stackOffset?_opening hc, ihi,
      stackOffset?_close hc, ihr, map_add_map_add _ rfl, map_add_map_add _ rfl]
    refine map_add_map_add _ ?_
    simp only [List.length_cons, List.length_append]
    omega

/-- A scan that comes to an end has passed nested brackets up to the innermost one expected. -/
theorem exists_nested {close : Char} {outer : List Char} {ms : List Marked} {k : Nat}
    (h : stackOffset? (close :: outer) ms = some k) :
    ∃ inner rest, Nested inner ∧ ms = inner ++ (close, .code) :: rest := by
  match ms with
  | [] => cases h
  | m :: rest =>
    by_cases hm : m.isBracket = false
    · rw [stackOffset?_skip hm] at h
      obtain ⟨n, hn, -⟩ := Option.map_eq_some_iff.1 h
      obtain ⟨inner, after, hi, rfl⟩ := exists_nested hn
      exact ⟨m :: inner, after, .skip hm hi, rfl⟩
    · obtain ⟨c, role⟩ := m
      rw [Bool.not_eq_false, Marked.isBracket, Bool.and_eq_true, beq_iff_eq] at hm
      obtain ⟨rfl, hbracket⟩ := hm
      cases hopen : isOpening c with
      | true =>
        obtain ⟨d, hd⟩ := exists_closing? hopen
        rw [stackOffset?_opening hd] at h
        obtain ⟨n, hn, -⟩ := Option.map_eq_some_iff.1 h
        obtain ⟨inner, after, hi, rfl⟩ := exists_nested hn
        rw [hi.stackOffset?_append, stackOffset?_close hd, map_add_map_add _ rfl] at hn
        obtain ⟨n', hn', -⟩ := Option.map_eq_some_iff.1 hn
        obtain ⟨inner', after', hi', rfl⟩ := exists_nested hn'
        refine ⟨(c, .code) :: (inner ++ (d, .code) :: inner'), after', .pair hd hi hi', ?_⟩
        simp
      | false =>
        rw [hopen, Bool.false_or] at hbracket
        rw [stackOffset?, if_pos rfl, stackStep_closing hbracket hopen] at h
        by_cases hc : c = close
        · exact ⟨[], rest, .nil, by rw [hc]; rfl⟩
        · rw [if_neg hc] at h
          cases h
termination_by ms.length

/-- The stack finds the closing bracket that the count finds, if what stands before it is nested. -/
theorem stackOffset?_eq_some_iff (hc : closing? o = some c) :
    stackOffset? [c] ms = some k ↔ closeOffset? o c 1 ms = some k ∧ Nested (ms.take k) := by
  constructor
  · intro h
    obtain ⟨inner, rest, hi, rfl⟩ := exists_nested h
    rw [hi.stackOffset?_append, stackOffset?_last hc, Option.map_some, Nat.zero_add] at h
    cases h
    rw [List.take_left]
    exact ⟨hi.closeOffset?_closing hc rest, hi⟩
  · rintro ⟨hk, hi⟩
    obtain ⟨inner, rest, rfl, rfl⟩ := split_at_getElem? (closeOffset?_code hk)
    rw [List.take_left] at hi
    rw [hi.stackOffset?_append, stackOffset?_last hc, Option.map_some, Nat.zero_add]

/-- Brackets of the kind that are opened less those that are closed. -/
def bracketLevel (o c : Char) (ms : List Marked) : Int := ms.count (o, .code) - ms.count (c, .code)

/-- From level `d` on, the level comes to zero for the first time at the closing bracket. -/
structure FirstReturn (o c : Char) (d : Int) (ms : List Marked) (k : Nat) : Prop where
  closing : ms[k]? = some (c, .code)
  level : d + bracketLevel o c (ms.take (k + 1)) = 0
  first : ∀ j < k, d + bracketLevel o c (ms.take (j + 1)) ≠ 0

theorem bracketLevel_cons (m : Marked) (ms : List Marked) :
    bracketLevel o c (m :: ms) = bracketLevel o c [m] + bracketLevel o c ms := by
  rw [← List.singleton_append, bracketLevel, List.count_append, List.count_append, bracketLevel,
    bracketLevel]
  omega

theorem firstReturn_zero (hne : o ≠ c) :
    FirstReturn o c d (m :: ms) 0 ↔ m = (c, .code) ∧ d = 1 := by
  have hlevel : bracketLevel o c [(c, .code)] = -1 := by
    simp [bracketLevel, hne.symm]
  constructor
  · rintro ⟨hc, hl, -⟩
    cases hc
    rw [List.take_succ_cons, List.take_zero, hlevel] at hl
    exact ⟨rfl, by omega⟩
  · rintro ⟨rfl, rfl⟩
    refine ⟨rfl, ?_, fun j hj => absurd hj (Nat.not_lt_zero j)⟩
    rw [List.take_succ_cons, List.take_zero, hlevel]
    omega

theorem firstReturn_succ : FirstReturn o c d (m :: ms) (k + 1) ↔
    d + bracketLevel o c [m] ≠ 0 ∧ FirstReturn o c (d + bracketLevel o c [m]) ms k := by
  constructor
  · rintro ⟨hc, hl, hfirst⟩
    rw [List.take_succ_cons, bracketLevel_cons, ← Int.add_assoc] at hl
    refine ⟨hfirst 0 (Nat.zero_lt_succ k), hc, hl, fun j hj => ?_⟩
    have hj' := hfirst (j + 1) (Nat.succ_lt_succ hj)
    rwa [List.take_succ_cons, bracketLevel_cons, ← Int.add_assoc] at hj'
  · rintro ⟨hm, hc, hl, hfirst⟩
    refine ⟨hc, ?_, fun j hj => ?_⟩
    · rwa [List.take_succ_cons, bracketLevel_cons, ← Int.add_assoc]
    · cases j with
      | zero => exact hm
      | succ j =>
        rw [List.take_succ_cons, bracketLevel_cons, ← Int.add_assoc]
        exact hfirst j (Nat.lt_of_succ_lt_succ hj)

theorem firstReturn_cons (hne : o ≠ c) : FirstReturn o c d (m :: ms) k ↔
    (k = 0 ∧ m = (c, .code) ∧ d = 1) ∨ ∃ n, k = n + 1 ∧ d + bracketLevel o c [m] ≠ 0 ∧
      FirstReturn o c (d + bracketLevel o c [m]) ms n := by
  cases k with
  | zero => simp [firstReturn_zero hne]
  | succ k => simp [firstReturn_succ]

/-- Inside brackets the count ends at the first place where the level comes to zero. -/
theorem closeOffset?_eq_some_iff (hne : o ≠ c) (d : Nat) :
    closeOffset? o c (d + 1) ms = some k ↔ FirstReturn o c (d + 1) ms k := by
  induction ms generalizing d k with
  | nil =>
    constructor
    · intro h
      cases h
    · intro h
      cases h.closing
  | cons m ms ih =>
    have hrest : ∀ e : Nat, (d + 1 : Int) + bracketLevel o c [m] = e + 1 →
        ((closeOffset? o c (e + 1) ms).map (· + 1) = some k ↔
          ∃ n, k = n + 1 ∧ (d + 1 : Int) + bracketLevel o c [m] ≠ 0 ∧
            FirstReturn o c (d + 1 + bracketLevel o c [m]) ms n) := by
      intro e he
      rw [he, Option.map_eq_some_iff]
      refine exists_congr fun n => ?_
      rw [ih, and_comm, eq_comm, and_iff_right (by omega : (e + 1 : Int) ≠ 0)]
    rw [closeOffset?, firstReturn_cons hne]
    by_cases ho : m = (o, .code)
    · have hlevel : bracketLevel o c [m] = 1 := by simp [bracketLevel, ho, hne]
      have hc : m ≠ (c, .code) := fun h => hne (Prod.mk.inj (ho.symm.trans h)).1
      rw [if_pos ho, hrest (d + 1) (by rw [hlevel]; omega)]
      simp only [hc, false_and, and_false, false_or]
    · by_cases hc : m = (c, .code)
      · have hlevel : bracketLevel o c [m] = -1 := by simp [bracketLevel, hc, hne.symm]
        rw [if_neg ho, if_pos hc]
        cases d with
        | zero =>
          rw [if_pos (Nat.le_refl 1), hlevel]
          simp [hc, eq_comm]
        | succ d =>
          rw [if_neg (by omega), Nat.add_sub_cancel, hrest d (by rw [hlevel]; omega)]
          refine (or_iff_right ?_).symm
          rintro ⟨-, -, hd⟩
          omega
      · have hlevel : bracketLevel o c [m] = 0 := by
          simp [bracketLevel, ho, hc]
        rw [if_neg ho, if_neg hc, hrest d (by rw [hlevel]; omega)]
        simp only [hc, false_and, and_false, false_or]

/-- From an opening bracket on, the level comes back to zero where the count ends. -/
theorem firstReturn_opening (hc : closing? o = some c) : FirstReturn o c 0 ((o, .code) :: ms) k ↔
    ∃ n, k = n + 1 ∧ closeOffset? o c 1 ms = some n := by
  have hne : o ≠ c := by
    rintro rfl
    obtain ⟨-, hclosing, hnot, -⟩ := brackets_of_closing? hc
    exact Bool.false_ne_true (hnot.symm.trans hclosing)
  have hlevel : bracketLevel o c [(o, .code)] = 1 := by simp [bracketLevel, hne]
  rw [firstReturn_cons hne, hlevel]
  simp [closeOffset?_eq_some_iff hne 0]

theorem mark_drop_opening (ho : s[i]? = some o) (hc : closing? o = some c) :
    mark (s.drop i) = (o, .code) :: mark (s.drop (i + 1)) := by
  obtain ⟨hi, rfl⟩ := List.getElem?_eq_some_iff.1 ho
  rw [List.drop_eq_getElem_cons hi, mark_cons (literal?_of_closing? hc _)]

theorem map_map_eq_some_iff {x : Option Nat} :
    (x.map (· + 1)).map (· + i) = some j ↔ ∃ k, j = i + 1 + k ∧ x = some k := by
  rw [map_add_map_add x (Nat.add_comm 1 i), Option.map_eq_some_iff]
  refine exists_congr fun k => ?_
  rw [and_comm]
  refine and_congr_left fun _ => ?_
  omega

/-- The partner of a bracket stands where the count over the text behind it ends. -/
theorem partnerAt?_eq_some_iff : partnerAt? s (i : Nat) = some j ↔
    ∃ o c, s[i]? = some o ∧ closing? o = some c ∧
      ∃ k, j = i + 1 + k ∧ closeOffset? o c 1 (mark (s.drop (i + 1))) = some k := by
  rw [partnerAt?, if_neg (Int.not_lt.2 (Int.natCast_nonneg i)), Int.toNat_natCast]
  cases hs : s[i]? with
  | none =>
    rw [List.drop_of_length_le (List.getElem?_eq_none_iff.1 hs), partner?]
    simp
  | some o =>
    obtain ⟨hi, rfl⟩ := List.getElem?_eq_some_iff.1 hs
    rw [List.drop_eq_getElem_cons hi]
    cases hc : closing? s[i] with
    | none => simp [partner?, hc]
    | some c =>
      rw [partner?_cons hc, map_map_eq_some_iff]
      simp [hc]

theorem stackPartnerAt?_eq_some_iff : stackPartnerAt? s i = some j ↔
    ∃ o c, s[i]? = some o ∧ closing? o = some c ∧
      ∃ k, j = i + 1 + k ∧ stackOffset? [c] (mark (s.drop (i + 1))) = some k := by
  rw [stackPartnerAt?, stackScan?_eq]
  cases hs : s[i]? with
  | none => simp
  | some o =>
    cases hopen : isOpening o with
    | false => simp [hopen, closing?_eq_none hopen]
    | true =>
      obtain ⟨c, hc⟩ := exists_closing? hopen
      rw [mark_drop_opening hs hc, stackOffset?_opening hc, Option.any_some, hopen, if_pos rfl,
        map_map_eq_some_iff]
      simp [hc]

/-- A stack for all kinds of brackets finds a partner just where counting one kind finds it and the
brackets in between are nested. For every text and offset the partner that the count finds is the
first bracket of code behind which as many brackets of the kind are closed as are opened. -/
theorem counting_matches (s : List Char) :
    (∀ i j : Nat, stackPartnerAt? s i = some j ↔
        partnerAt? s i = some j ∧ Nested ((mark (s.drop (i + 1))).take (j - (i + 1)))) ∧
      ∀ (i : Int) (j : Nat), partnerAt? s i = some j ↔
        ∃ (k : Nat) (o c : Char), i = k ∧ s[k]? = some o ∧ closing? o = some c ∧ k ≤ j ∧
          FirstReturn o c 0 (mark (s.drop k)) (j - k) := by
  constructor
  · intro i j
    rw [stackPartnerAt?_eq_some_iff, partnerAt?_eq_some_iff]
    constructor
    · rintro ⟨o, c, ho, hc, k, rfl, hk⟩
      obtain ⟨hcount, hnested⟩ := (stackOffset?_eq_some_iff hc).1 hk
      rw [Nat.add_sub_cancel_left]
      exact ⟨⟨o, c, ho, hc, k, rfl, hcount⟩, hnested⟩
    · rintro ⟨⟨o, c, ho, hc, k, rfl, hk⟩, hnested⟩
      rw [Nat.add_sub_cancel_left] at hnested
      exact ⟨o, c, ho, hc, k, rfl, (stackOffset?_eq_some_iff hc).2 ⟨hk, hnested⟩⟩
  · intro i j
    constructor
    · intro h
      obtain ⟨k, rfl⟩ : ∃ k : Nat, i = k := by
        refine Int.eq_ofNat_of_zero_le (Int.not_lt.1 fun hi => ?_)
        rw [partnerAt?, if_pos hi] at h
        cases h
      obtain ⟨o, c, ho, hc, n, rfl, hn⟩ := partnerAt?_eq_some_iff.1 h
      refine ⟨k, o, c, rfl, ho, hc, by omega, ?_⟩
      rw [mark_drop_opening ho hc]
      exact (firstReturn_opening hc).2 ⟨n, by omega, hn⟩
    · rintro ⟨k, o, c, rfl, ho, hc, hle, h⟩
      rw [mark_drop_opening ho hc] at h
      obtain ⟨n, hj, hn⟩ := (firstReturn_opening hc).1 h
      exact partnerAt?_eq_some_iff.2 ⟨o, c, ho, hc, n, by omega, hn⟩

end ViewHierarchy.Source
