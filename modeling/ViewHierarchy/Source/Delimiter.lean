import ViewHierarchy.Source.Role
import ViewHierarchy.Text.Blank

/-! Brackets: the partner of an opening one, the text it encloses, and splitting outside of all. -/
namespace ViewHierarchy.Source

def closing? : Char → Option Char
  | '{' => some '}'
  | '(' => some ')'
  | '[' => some ']'
  | _ => none

def isOpening (c : Char) : Bool := c == '(' || c == '[' || c == '{'

def isClosing (c : Char) : Bool := c == ')' || c == ']' || c == '}'

/-- Offset of the closing bracket that returns to depth zero; other kinds are not counted. -/
def closeOffset? (opening closing : Char) : Nat → List Marked → Option Nat
  | _, [] => none
  | depth, m :: rest =>
    if m = (opening, .code) then (closeOffset? opening closing (depth + 1) rest).map (· + 1)
    else if m = (closing, .code) then
      if depth ≤ 1 then some 0
      else (closeOffset? opening closing (depth - 1) rest).map (· + 1)
    else (closeOffset? opening closing depth rest).map (· + 1)

/-- Offset of the partner of the bracket that starts the text. -/
def partner? : List Char → Option Nat
  | [] => none
  | c :: rest => (closing? c).bind fun closing => closeOffset? c closing 0 (mark (c :: rest))

/-- Offset of the partner of the bracket at `pos`, which may lie outside the text. -/
def partnerAt? (s : List Char) (pos : Int) : Option Nat :=
  if pos < 0 then none else (partner? (s.drop pos.toNat)).map (· + pos.toNat)

/-- The text inside the bracket that starts the text, and what follows its partner. -/
def enclosed? (s : List Char) : Option (List Char × List Char) :=
  (partner? s).map fun k => ((s.take k).drop 1, s.drop (k + 1))

/-- The inner text of the block at `pos` with the offset of its closing bracket. -/
def enclosedAt? (s : List Char) (pos : Int) : Option (List Char × Nat) :=
  (partnerAt? s pos).map fun k => ((s.take k).drop (pos.toNat + 1), k)

theorem closeOffset?_lt {opening closing : Char} {depth k : Nat} {ms : List Marked}
    (h : closeOffset? opening closing depth ms = some k) : k < ms.length := by
  induction ms generalizing depth k with
  | nil => cases h
  | cons m rest ih =>
    rw [closeOffset?] at h
    split at h
    · obtain ⟨j, hj, rfl⟩ := Option.map_eq_some_iff.1 h
      exact Nat.succ_lt_succ (ih hj)
    · split at h
      · split at h
        · cases h
          exact Nat.zero_lt_succ _
        · obtain ⟨j, hj, rfl⟩ := Option.map_eq_some_iff.1 h
          exact Nat.succ_lt_succ (ih hj)
      · obtain ⟨j, hj, rfl⟩ := Option.map_eq_some_iff.1 h
        exact Nat.succ_lt_succ (ih hj)

theorem partner?_lt {s : List Char} {k : Nat} (h : partner? s = some k) : k < s.length := by
  cases s with
  | nil => cases h
  | cons c rest =>
    obtain ⟨closing, _, hk⟩ := Option.bind_eq_some_iff.1 h
    simpa only [length_mark] using closeOffset?_lt hk

theorem enclosed?_length {s inner rest : List Char} (h : enclosed? s = some (inner, rest)) :
    inner.length + rest.length < s.length := by
  obtain ⟨k, hk, he⟩ := Option.map_eq_some_iff.1 h
  have hlt := partner?_lt hk
  cases he
  simp only [List.length_drop, List.length_take]
  omega

theorem enclosed?_inner_lt {s inner rest : List Char} (h : enclosed? s = some (inner, rest)) :
    inner.length < s.length :=
  Nat.lt_of_le_of_lt (Nat.le_add_right _ _) (enclosed?_length h)

theorem enclosed?_rest_lt {s inner rest : List Char} (h : enclosed? s = some (inner, rest)) :
    rest.length < s.length :=
  Nat.lt_of_le_of_lt (Nat.le_add_left _ _) (enclosed?_length h)

/-- The pieces between separators at depth zero; `piece` holds the one being read, reversed. -/
def piecesFrom (sep : List Char) (depth : Int) (piece : List Char) : List Marked → List (List Char)
  | [] => [piece.reverse]
  | (c, .code) :: rest =>
    if isOpening c then piecesFrom sep (depth + 1) (c :: piece) rest
    else if isClosing c then piecesFrom sep (depth - 1) (c :: piece) rest
    else if sep == [c] && depth == 0 then piece.reverse :: piecesFrom sep depth [] rest
    else piecesFrom sep depth (c :: piece) rest
  | (c, _) :: rest => piecesFrom sep depth (c :: piece) rest

/-- The nonempty trimmed pieces between separators that no bracket, string or comment encloses.
A separator that is not a single character splits nothing. -/
def splitTopLevel (sep s : List Char) : List (List Char) :=
  ((piecesFrom sep 0 [] (mark s)).map Text.trim).filter (!·.isEmpty)

theorem length_of_mem_piecesFrom {sep piece p : List Char} {depth : Int} {ms : List Marked}
    (h : p ∈ piecesFrom sep depth piece ms) : p.length ≤ piece.length + ms.length := by
  fun_induction piecesFrom sep depth piece ms with
  | case1 =>
    cases List.mem_singleton.1 h
    simp only [List.length_reverse, Nat.le_add_right]
  | case2 _ _ _ _ _ ih => grind
  | case3 _ _ _ _ _ _ ih => grind
  | case4 _ _ _ _ _ _ _ ih =>
    rcases List.mem_cons.1 h with rfl | h
    · simp only [List.length_reverse, Nat.le_add_right]
    · grind
  | case5 _ _ _ _ _ _ _ ih => grind
  | case6 _ _ _ _ _ _ ih => grind

theorem length_of_mem_splitTopLevel {sep s p : List Char} (h : p ∈ splitTopLevel sep s) :
    p.length ≤ s.length := by
  obtain ⟨q, hq, rfl⟩ := List.mem_map.1 (List.mem_filter.1 h).1
  refine Nat.le_trans (Text.trim_length_le q) (Nat.le_trans (length_of_mem_piecesFrom hq) ?_)
  simp only [List.length_nil, length_mark, Nat.zero_add, Nat.le_refl]

end ViewHierarchy.Source
