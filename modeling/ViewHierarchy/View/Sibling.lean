import ViewHierarchy.View.Conditional
import ViewHierarchy.View.Element

/-! Siblings: the expressions and conditionals that stand side by side in a block. -/
namespace ViewHierarchy
open Text Source

inductive Sibling where
  | expression (text : List Char)
  | conditional (c : Conditional)

/-- Whether the next token after trivia is a dot, which continues the chain before it. -/
def continuesChain (ms : List Marked) : Bool :=
  ((ms.dropWhile Marked.isTrivia).head?).any fun m => m.1 == '.'

/-- Length of the expression that starts a marked text. Outside brackets it ends at a semicolon,
and at a line break unless the next token continues its chain. -/
def expressionLength : Int → List Marked → Nat
  | _, [] => 0
  | depth, (c, .code) :: rest =>
    if isOpening c then expressionLength (depth + 1) rest + 1
    else if isClosing c then expressionLength (depth - 1) rest + 1
    else if depth ≤ 0 ∧ (c = ';' ∨ (c = '\n' ∧ continuesChain rest = false)) then 0
    else expressionLength depth rest + 1
  | depth, _ :: rest => expressionLength depth rest + 1

/-- The expression that starts the text, and what follows it. -/
def headExpression (s : List Char) : List Char × List Char :=
  let n := max (expressionLength 0 (mark s)) 1
  (trim (s.take n), s.drop n)

/-- The conditional that starts the text, if one does. -/
def headConditional? (s : List Char) : Option (Conditional × List Char) :=
  if startsWithIf s then Conditional.read? s else none

theorem headConditional?_length {s rest : List Char} {c : Conditional}
    (h : headConditional? s = some (c, rest)) :
    rest.length < s.length ∧ ∀ block ∈ c.blocks, block.length < s.length := by
  rw [headConditional?] at h
  split at h
  · exact Conditional.read?_length h
  · cases h

def siblings (body : List Char) : List Sibling :=
  match hs : dropSeparators body with
  | [] => []
  | c :: s =>
    have hlt : (c :: s).length ≤ body.length := hs ▸ dropSeparators_length_le body
    match hc : headConditional? (c :: s) with
    | some (conditional, rest) =>
      have : rest.length < body.length := Nat.lt_of_lt_of_le (headConditional?_length hc).1 hlt
      .conditional conditional :: siblings rest
    | none =>
      have : (headExpression (c :: s)).2.length < body.length := by
        simp only [headExpression, List.length_drop, List.length_cons] at hlt ⊢
        omega
      .expression (headExpression (c :: s)).1 :: siblings (headExpression (c :: s)).2
termination_by body.length

namespace Sibling

/-- The texts whose siblings are the children of a sibling. -/
def blocks : Sibling → List (List Char)
  | expression text => (Element.read text).blocks
  | conditional c => c.blocks

theorem length_of_mem_blocks {body block : List Char} {sibling : Sibling}
    (hs : sibling ∈ siblings body) (hb : block ∈ sibling.blocks) :
    block.length < body.length := by
  fun_induction siblings body with
  | case1 => cases hs
  | case2 body c s hd hle conditional rest hc hlt ih =>
    rcases List.mem_cons.1 hs with rfl | hs
    · exact Nat.lt_of_lt_of_le ((headConditional?_length hc).2 block hb) hle
    · exact Nat.lt_trans (ih hs) hlt
  | case3 body c s hd hle hc hlt ih =>
    rcases List.mem_cons.1 hs with rfl | hs
    · have h₁ := Element.length_of_mem_blocks hb
      have h₂ : (headExpression (c :: s)).1.length ≤ (c :: s).length :=
        Nat.le_trans (trim_length_le _) (by simp only [List.length_take, Nat.min_le_right])
      omega
    · exact Nat.lt_trans (ih hs) hlt

end Sibling

end ViewHierarchy
