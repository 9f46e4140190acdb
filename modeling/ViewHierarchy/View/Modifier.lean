import ViewHierarchy.View.Closure

/-! Modifier chains: the calls `.name` and `.name(arguments)` that follow an element. -/
namespace ViewHierarchy
open Text Source

/-- The arguments of a call on one line, and what follows them; unclosed ones end the chain. -/
def modifierArguments (s : List Char) : List Char × List Char :=
  match trimLeft s with
  | '(' :: rest =>
    match enclosed? ('(' :: rest) with
    | some (arguments, after) => (collapse arguments, after)
    | none => ([], [])
  | _ => ([], s)

/-- What follows the closures attached to a modifier; they hold no view content. -/
def afterModifierClosures (s : List Char) : List Char :=
  match trimLeft s with
  | '{' :: rest =>
    match enclosed? ('{' :: rest) with
    | some (_, after) => (labelledClosures after).2
    | none => []
  | _ => s

/-- The text of the modifier after a dot, and what follows it. -/
def modifier? (s : List Char) : Option (List Char × List Char) :=
  match s.takeWhile isWord with
  | [] => none
  | c :: name =>
    let (arguments, after) := modifierArguments (s.dropWhile isWord)
    let call := if arguments.isEmpty then c :: name else c :: name ++ '(' :: arguments ++ [')']
    some (call, afterModifierClosures after)

theorem modifierArguments_length_le (s : List Char) :
    (modifierArguments s).2.length ≤ s.length := by
  have h := trimLeft_length_le s
  rw [modifierArguments]
  split
  · next hs =>
    split
    · next he =>
      rw [hs] at h
      exact Nat.le_trans (Nat.le_of_lt (enclosed?_rest_lt he)) h
    · exact Nat.zero_le _
  · exact Nat.le_refl _

theorem afterModifierClosures_length_le (s : List Char) :
    (afterModifierClosures s).length ≤ s.length := by
  have h := trimLeft_length_le s
  rw [afterModifierClosures]
  split
  · next hs =>
    split
    · next after he =>
      rw [hs] at h
      exact Nat.le_trans (labelledClosures_length_le after)
        (Nat.le_trans (Nat.le_of_lt (enclosed?_rest_lt he)) h)
    · exact Nat.zero_le _
  · exact Nat.le_refl _

theorem modifier?_length_le {s call rest : List Char} (h : modifier? s = some (call, rest)) :
    rest.length ≤ s.length := by
  rw [modifier?] at h
  split at h
  · cases h
  · cases h
    exact Nat.le_trans (afterModifierClosures_length_le _)
      (Nat.le_trans (modifierArguments_length_le _) (dropWhile_length_le isWord s))

/-- The modifiers of a text read at the given bracket depth; dots inside brackets start none. -/
def modifiersFrom (depth : Int) (s : List Char) : List (List Char) :=
  match s with
  | [] => []
  | c :: rest =>
    match literal? (c :: rest) with
    | some (_, n) => modifiersFrom depth (rest.drop (n - 1))
    | none =>
      if isOpening c then modifiersFrom (depth + 1) rest
      else if isClosing c then modifiersFrom (depth - 1) rest
      else if c = '.' ∧ depth ≤ 0 then
        match h : modifier? rest with
        | none => modifiersFrom depth rest
        | some (call, after) =>
          have := Nat.lt_succ_of_le (modifier?_length_le h)
          call :: modifiersFrom depth after
      else modifiersFrom depth rest
termination_by s.length
decreasing_by
  all_goals simp only [List.length_drop, List.length_cons]
  all_goals omega

def modifiers (s : List Char) : List (List Char) := modifiersFrom 0 s

end ViewHierarchy
