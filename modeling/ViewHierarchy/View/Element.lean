import ViewHierarchy.View.Closure

/-! Elements: a name with arguments, the closures that build its children, and what is chained
to it. -/
namespace ViewHierarchy
open Text Source

/-- An element as written. An argument list or a trailing closure that never closes is left out,
with all that follows it. -/
structure Element where
  name : List Char
  arguments : List Char
  closures : List (List Char)
  chain : List Char
  argumentsUnclosed : Bool
  closureUnclosed : Bool

namespace Element

def isNameCharacter (c : Char) : Bool := c.isAlphanum || c == '_' || c == '.'

def isForEach (name : List Char) : Bool := name == "ForEach".toList

/-- The block of a `content:` argument. -/
def contentArgument? (arguments : List Char) : Option (List Char) :=
  (splitTopLevel [','] arguments).findSome? fun part => (contentClosure? part).map Prod.fst

/-- The content closure of a ForEach, in its arguments or right behind them, and what follows. -/
def forEachContent (arguments after : List Char) : List (List Char) × List Char :=
  match contentArgument? arguments with
  | some block => ([block], after)
  | none =>
    match contentClosure? (trimLeft after) with
    | some (block, rest) => ([block], rest)
    | none => ([], after)

/-- The closures of an element that are not trailing; a ForEach alone may have one. -/
def leadingContent (name arguments after : List Char) : List (List Char) × List Char :=
  if isForEach name then forEachContent arguments after else ([], after)

/-- Adds the trailing closures to those already read and leaves the chain. -/
def withTrailing (name arguments : List Char) (content : List (List Char)) (s : List Char) :
    Element :=
  match trimLeft s with
  | '{' :: rest =>
    match enclosed? ('{' :: rest) with
    | none => ⟨name, arguments, content, [], false, true⟩
    | some (inner, after) =>
      let more := labelledClosures after
      ⟨name, arguments, content ++ inner :: more.1, more.2, false, false⟩
  | _ => ⟨name, arguments, content, s, false, false⟩

/-- The name that starts a text; a text that starts with none is a View. -/
def nameOf (s : List Char) : List Char :=
  match s.takeWhile isNameCharacter with
  | [] => "View".toList
  | c :: rest => c :: rest

def readAfterName (name s : List Char) : Element :=
  match trimLeft s with
  | '(' :: rest =>
    match enclosed? ('(' :: rest) with
    | none => ⟨name, [], [], [], true, false⟩
    | some (arguments, after) =>
      let content := leadingContent name arguments after
      withTrailing name arguments content.1 content.2
  | _ => withTrailing name [] [] s

def read (text : List Char) : Element :=
  readAfterName (nameOf (trim text)) ((trim text).dropWhile isNameCharacter)

/-- The texts whose expressions are the children of the element. -/
def blocks (e : Element) : List (List Char) := e.closures.map stripParameters

theorem contentArgument?_length {arguments block : List Char}
    (h : contentArgument? arguments = some block) : block.length < arguments.length := by
  obtain ⟨part, hp, h⟩ := List.exists_of_findSome?_eq_some h
  obtain ⟨⟨inner, rest⟩, hc, rfl⟩ := Option.map_eq_some_iff.1 h
  have h₁ := contentClosure?_length hc
  have h₂ := length_of_mem_splitTopLevel hp
  simp only
  omega

theorem forEachContent_length (arguments after : List Char) :
    (∀ block ∈ (forEachContent arguments after).1,
      block.length < arguments.length + after.length) ∧
      (forEachContent arguments after).2.length ≤ after.length := by
  rw [forEachContent]
  split
  · next block h =>
    refine ⟨fun b hb => ?_, Nat.le_refl _⟩
    cases List.mem_singleton.1 hb
    exact Nat.lt_of_lt_of_le (contentArgument?_length h) (Nat.le_add_right _ _)
  · split
    · next block rest h =>
      have h₁ := contentClosure?_length h
      have h₂ := trimLeft_length_le after
      refine ⟨fun b hb => ?_, by simp only; omega⟩
      cases List.mem_singleton.1 hb
      omega
    · exact ⟨fun b hb => absurd hb (List.not_mem_nil), Nat.le_refl _⟩

theorem length_of_mem_withTrailing {name arguments s block : List Char}
    {content : List (List Char)} (h : block ∈ (withTrailing name arguments content s).closures) :
    block ∈ content ∨ block.length < s.length := by
  have hs := trimLeft_length_le s
  rw [withTrailing] at h
  split at h
  · next rest ht =>
    rw [ht] at hs
    split at h
    · exact .inl h
    · next inner after he =>
      rcases List.mem_append.1 h with h | h
      · exact .inl h
      · rcases List.mem_cons.1 h with rfl | h
        · exact .inr (Nat.lt_of_lt_of_le (enclosed?_inner_lt he) hs)
        · exact .inr (Nat.lt_of_lt_of_le (Nat.lt_trans (length_of_mem_labelledClosures h)
            (enclosed?_rest_lt he)) hs)
  · exact .inl h

theorem leadingContent_length (name arguments after : List Char) :
    (∀ block ∈ (leadingContent name arguments after).1,
      block.length < arguments.length + after.length) ∧
      (leadingContent name arguments after).2.length ≤ after.length := by
  rw [leadingContent]
  split
  · exact forEachContent_length arguments after
  · exact ⟨fun b hb => absurd hb List.not_mem_nil, Nat.le_refl _⟩

theorem length_of_mem_readAfterName {name s block : List Char}
    (h : block ∈ (readAfterName name s).closures) : block.length < s.length := by
  have hs := trimLeft_length_le s
  rw [readAfterName] at h
  split at h
  · next rest hr =>
    rw [hr] at hs
    split at h
    · cases h
    · next arguments after he =>
      have h₁ := enclosed?_length he
      have h₂ := leadingContent_length name arguments after
      rcases length_of_mem_withTrailing h with h | h
      · have := h₂.1 block h
        omega
      · omega
  · rcases length_of_mem_withTrailing h with h | h
    · cases h
    · exact h

/-- Every closure of an element is shorter than the text that holds it. -/
theorem length_of_mem_closures {text block : List Char} (h : block ∈ (read text).closures) :
    block.length < text.length :=
  Nat.lt_of_lt_of_le (length_of_mem_readAfterName h) <|
    Nat.le_trans (dropWhile_length_le isNameCharacter (trim text)) (trim_length_le text)

theorem length_of_mem_blocks {text block : List Char} (h : block ∈ (read text).blocks) :
    block.length < text.length := by
  obtain ⟨closure, hc, rfl⟩ := List.mem_map.1 h
  exact Nat.lt_of_le_of_lt (stripParameters_length_le closure) (length_of_mem_closures hc)

end Element

end ViewHierarchy
