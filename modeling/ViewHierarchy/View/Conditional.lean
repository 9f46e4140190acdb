import ViewHierarchy.Source.Delimiter
import ViewHierarchy.Source.Trivia

/-! Conditionals: `if` with its condition and block, and the alternatives after it. -/
namespace ViewHierarchy
open Text Source

/-- A conditional as written, by what follows its block: nothing, an `else` whose block never
closes, an `else` with a block, or another conditional. -/
inductive Conditional where
  | plain (condition block : List Char)
  | unfinished (condition block : List Char)
  | alternative (condition block otherwise : List Char)
  | chain (condition block : List Char) (next : Conditional)

/-- Length of a condition: it ends at the first brace outside round and square brackets. -/
def conditionLength? : Int → List Marked → Option Nat
  | _, [] => none
  | depth, (c, .code) :: rest =>
    if c == '(' || c == '[' then (conditionLength? (depth + 1) rest).map (· + 1)
    else if c == ')' || c == ']' then (conditionLength? (depth - 1) rest).map (· + 1)
    else if c == '{' && decide (depth ≤ 0) then some 0
    else (conditionLength? depth rest).map (· + 1)
  | depth, _ :: rest => (conditionLength? depth rest).map (· + 1)

structure Clause where
  condition : List Char
  block : List Char

def clause? (s : List Char) : Option (Clause × List Char) := do
  let s := trimLeft s
  let n ← conditionLength? 0 (mark s)
  let (block, rest) ← enclosed? (s.drop n)
  return (⟨collapse (s.take n), block⟩, rest)

theorem clause?_length {s rest : List Char} {clause : Clause} (h : clause? s = some (clause, rest)) :
    clause.block.length + rest.length < s.length := by
  obtain ⟨n, _, h⟩ := Option.bind_eq_some_iff.1 h
  obtain ⟨⟨block, after⟩, he, h⟩ := Option.bind_eq_some_iff.1 h
  cases h
  have h₁ := enclosed?_length he
  have h₂ := trimLeft_length_le s
  rw [List.length_drop] at h₁
  exact Nat.lt_of_lt_of_le h₁ (Nat.le_trans (Nat.sub_le _ _) h₂)

/-- What follows the word `else` and the trivia after it, if that word comes next. -/
def afterElse? (s : List Char) : Option (List Char) :=
  let s := dropTrivia s
  if startsWithWord ['e', 'l', 's', 'e'] s then some (dropTrivia (s.drop 4)) else none

theorem afterElse?_length_le {s after : List Char} (h : afterElse? s = some after) :
    after.length ≤ s.length := by
  simp only [afterElse?, Option.ite_none_right_eq_some, Option.some.injEq] at h
  obtain ⟨-, rfl⟩ := h
  refine Nat.le_trans (dropTrivia_length_le _) (Nat.le_trans ?_ (dropTrivia_length_le s))
  simp only [List.length_drop, Nat.sub_le]

def startsWithIf (s : List Char) : Bool := startsWithWord ['i', 'f'] s

/-- Reads a conditional, given the text from its `if` on. Without a block after the condition
there is none; an `else` without a block belongs to it, and what stands after that does not. -/
def Conditional.read? (s : List Char) : Option (Conditional × List Char) :=
  match hc : clause? (s.drop 2) with
  | none => none
  | some (⟨condition, block⟩, rest) =>
    match he : afterElse? rest with
    | none => some (.plain condition block, rest)
    | some after =>
      have : after.length < s.length := by
        have h₁ := clause?_length hc
        have h₂ := afterElse?_length_le he
        simp only [List.length_drop] at h₁
        omega
      if startsWithIf after then
        match Conditional.read? after with
        | none => some (.plain condition block, after)
        | some (next, rest) => some (.chain condition block next, rest)
      else if after.head? = some '{' then
        match enclosed? after with
        | none => some (.unfinished condition block, [])
        | some (otherwise, rest) => some (.alternative condition block otherwise, rest)
      else some (.plain condition block, after)
termination_by s.length

/-- The blocks of a conditional in the order in which they are written. -/
def Conditional.blocks : Conditional → List (List Char)
  | .plain _ block => [block]
  | .unfinished _ block => [block]
  | .alternative _ block otherwise => [block, otherwise]
  | .chain _ block next => block :: next.blocks

theorem Conditional.read?_length {s rest : List Char} {c : Conditional}
    (h : read? s = some (c, rest)) :
    rest.length < s.length ∧ ∀ block ∈ c.blocks, block.length < s.length := by
  fun_induction Conditional.read? s generalizing c rest with
  | case1 => cases h
  | case2 s condition block after hc he =>
    cases h
    have h₁ := clause?_length hc
    simp only [List.length_drop] at h₁
    refine ⟨by omega, fun b hb => ?_⟩
    cases List.mem_singleton.1 hb
    omega
  | case3 s condition block rest' hc after he hlt hif hnone ih =>
    cases h
    have h₁ := clause?_length hc
    simp only [List.length_drop] at h₁
    refine ⟨by omega, fun b hb => ?_⟩
    cases List.mem_singleton.1 hb
    omega
  | case4 s condition block rest' hc after he hlt hif next rest'' hnext ih =>
    cases h
    have h₁ := clause?_length hc
    simp only [List.length_drop] at h₁
    obtain ⟨h₂, h₃⟩ := ih hnext
    refine ⟨by omega, fun b hb => ?_⟩
    rcases List.mem_cons.1 hb with rfl | hb
    · omega
    · exact Nat.lt_trans (h₃ b hb) hlt
  | case5 s condition block rest' hc after he hlt hif hbrace hnone =>
    cases h
    have h₁ := clause?_length hc
    simp only [List.length_drop] at h₁
    refine ⟨by simp only [List.length_nil]; omega, fun b hb => ?_⟩
    cases List.mem_singleton.1 hb
    omega
  | case6 s condition block rest' hc after he hlt hif hbrace otherwise rest'' hblock =>
    cases h
    have h₁ := clause?_length hc
    have h₂ := enclosed?_length hblock
    simp only [List.length_drop] at h₁
    refine ⟨by omega, fun b hb => ?_⟩
    simp only [blocks, List.mem_cons, List.not_mem_nil, or_false] at hb
    rcases hb with rfl | rfl <;> omega
  | case7 s condition block rest' hc after he hlt hif hbrace =>
    cases h
    have h₁ := clause?_length hc
    simp only [List.length_drop] at h₁
    refine ⟨by omega, fun b hb => ?_⟩
    cases List.mem_singleton.1 hb
    omega

end ViewHierarchy
