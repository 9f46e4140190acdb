import ViewHierarchy.Source.Delimiter
import ViewHierarchy.Text.Word

/-! Closures: the parameters at their head and the labels that name them. -/
namespace ViewHierarchy
open Text Source

/-- What follows a capture list and the white space after it; the list stays on its line. -/
def afterCaptures (s : List Char) : Option (List Char) :=
  match s with
  | '[' :: rest =>
    match rest.dropWhile fun c => c != ']' && c != '\n' with
    | ']' :: after => some (trimLeft after)
    | _ => none
  | _ => some s

def isIdentifierStart (c : Char) : Bool := c.isAlpha || c == '_' || c == '$'

def isIdentifierRest (c : Char) : Bool := isWord c || c == '$'

theorem afterComma_length_lt {c : Char} {rest more : List Char}
    (h : trimLeft (rest.dropWhile isIdentifierRest) = ',' :: more) :
    (trimLeft more).length < (c :: rest).length := by
  have h₁ := dropWhile_length_le isIdentifierRest rest
  have h₂ := trimLeft_length_le (rest.dropWhile isIdentifierRest)
  have h₃ := trimLeft_length_le more
  rw [h, List.length_cons] at h₂
  rw [List.length_cons]
  omega

/-- What follows the identifiers of a comma-separated list. -/
def afterIdentifiers? (s : List Char) : Option (List Char) :=
  match s with
  | [] => none
  | c :: rest =>
    if isIdentifierStart c then
      match h : trimLeft (rest.dropWhile isIdentifierRest) with
      | ',' :: more =>
        have := afterComma_length_lt (c := c) h
        some ((afterIdentifiers? (trimLeft more)).getD (rest.dropWhile isIdentifierRest))
      | _ => some (rest.dropWhile isIdentifierRest)
    else none
termination_by s.length
decreasing_by exact this

/-- What follows parameters, in parentheses on one line or as plain identifiers. -/
def afterParameters? (s : List Char) : Option (List Char) :=
  match s with
  | '(' :: rest =>
    match rest.dropWhile fun c => !(['(', ')', '{', '}', '"', '\n'].contains c) with
    | ')' :: after => some (trimLeft after)
    | _ => none
  | _ => (afterIdentifiers? s).bind afterBlanks?

def isTypeCharacter (c : Char) : Bool := isWord c || ['.', '?', '!', '<', '>', '[', ']'].contains c

/-- What follows a result type; a text without an arrow, or with an unfinished one, stays whole. -/
def afterResultType (s : List Char) : List Char :=
  match s with
  | '-' :: '>' :: rest =>
    match trimLeft rest with
    | c :: more =>
      if isTypeCharacter c then ((afterBlanks? (more.dropWhile isTypeCharacter)).getD s) else s
    | [] => s
  | _ => s

/-- What follows the word that ends a parameter list. -/
def afterIn? : List Char → Option (List Char)
  | 'i' :: 'n' :: rest => if rest.head?.any isWord then none else some rest
  | _ => none

/-- What follows the parameters at the head of a closure, `in` included. -/
def afterClosureHead? (s : List Char) : Option (List Char) := do
  let s ← afterCaptures (trimLeft s)
  let s ← afterParameters? s
  afterIn? (afterResultType s)

/-- The statements of a closure, without its parameters if it has any. -/
def stripParameters (s : List Char) : List Char := ((afterClosureHead? s).map trimLeft).getD s

/-- Reads `content:` and the block after it at the head of a text. -/
def contentClosure? (s : List Char) : Option (List Char × List Char) :=
  if "content".toList.isPrefixOf s then
    match trimLeft (s.drop 7) with
    | ':' :: rest =>
      match trimLeft rest with
      | '{' :: block => enclosed? ('{' :: block)
      | _ => none
    | _ => none
  else none

/-- The text from the brace on after a label and its colon. -/
def labelledBlock? (s : List Char) : Option (List Char) :=
  let s := s.dropWhile fun c => c == ' ' || c == '\t'
  match s.takeWhile isWord, trimLeft (s.dropWhile isWord) with
  | _ :: _, ':' :: rest =>
    match trimLeft rest with
    | '{' :: block => some ('{' :: block)
    | _ => none
  | _, _ => none

theorem labelledBlock?_length_le {s block : List Char} (h : labelledBlock? s = some block) :
    block.length ≤ s.length := by
  have h₁ := dropWhile_length_le (fun c => c == ' ' || c == '\t') s
  simp only [labelledBlock?] at h
  generalize s.dropWhile (fun c => c == ' ' || c == '\t') = t at h h₁
  have h₂ := dropWhile_length_le isWord t
  have h₃ := trimLeft_length_le (t.dropWhile isWord)
  split at h
  · next rest _ hr =>
    have h₄ := trimLeft_length_le rest
    split at h
    · next he =>
      cases h
      rw [he] at h₄
      rw [hr] at h₃
      simp only [List.length_cons] at h₃ h₄ ⊢
      omega
    · cases h
  · cases h

/-- The labelled closures that follow a trailing one, and what follows them. One that never closes
takes the rest of the text with it. -/
def labelledClosures (s : List Char) : List (List Char) × List Char :=
  match hb : labelledBlock? s with
  | none => ([], s)
  | some block =>
    match he : enclosed? block with
    | none => ([], [])
    | some (inner, rest) =>
      have : rest.length < s.length :=
        Nat.lt_of_lt_of_le (enclosed?_rest_lt he) (labelledBlock?_length_le hb)
      let more := labelledClosures rest
      (inner :: more.1, more.2)
termination_by s.length

theorem afterCaptures_length_le {s rest : List Char} (h : afterCaptures s = some rest) :
    rest.length ≤ s.length := by
  rw [afterCaptures.eq_def] at h
  split at h
  · next t =>
    split at h
    · next after ha =>
      cases h
      have h₁ := dropWhile_length_le (fun c => c != ']' && c != '\n') t
      have h₂ := trimLeft_length_le after
      rw [ha] at h₁
      simp only [List.length_cons] at h₁ ⊢
      omega
    · cases h
  · cases h
    exact Nat.le_refl _

theorem afterIdentifiers?_length_le {s rest : List Char} (h : afterIdentifiers? s = some rest) :
    rest.length ≤ s.length := by
  fun_induction afterIdentifiers? s generalizing rest with
  | case1 => cases h
  | case2 c t hc more heq hlt ih =>
    cases h
    have h₁ := dropWhile_length_le isIdentifierRest t
    cases hm : afterIdentifiers? (trimLeft more) with
    | none =>
      simp only [Option.getD_none, List.length_cons]
      omega
    | some after =>
      have h₂ := ih hm
      simp only [Option.getD_some]
      omega
  | case3 c t hc hne =>
    cases h
    have h₁ := dropWhile_length_le isIdentifierRest t
    simp only [List.length_cons]
    omega
  | case4 => cases h

theorem afterParameters?_length_le {s rest : List Char} (h : afterParameters? s = some rest) :
    rest.length ≤ s.length := by
  rw [afterParameters?.eq_def] at h
  split at h
  · next t =>
    split at h
    · next after ha =>
      cases h
      have h₁ := dropWhile_length_le (fun c => !(['(', ')', '{', '}', '"', '\n'].contains c)) t
      have h₂ := trimLeft_length_le after
      rw [ha] at h₁
      simp only [List.length_cons] at h₁ ⊢
      omega
    · cases h
  · obtain ⟨t, ht, h⟩ := Option.bind_eq_some_iff.1 h
    exact Nat.le_trans (afterBlanks?_length_le h) (afterIdentifiers?_length_le ht)

theorem afterResultType_length_le (s : List Char) : (afterResultType s).length ≤ s.length := by
  rw [afterResultType.eq_def]
  split
  · next t =>
    split
    · next c more hm =>
      split
      · cases hb : afterBlanks? (more.dropWhile isTypeCharacter) with
        | none => exact Nat.le_refl _
        | some after =>
          have h₁ := afterBlanks?_length_le hb
          have h₂ := dropWhile_length_le isTypeCharacter more
          have h₃ := trimLeft_length_le t
          rw [hm] at h₃
          simp only [Option.getD_some, List.length_cons] at h₃ ⊢
          omega
      · exact Nat.le_refl _
    · exact Nat.le_refl _
  · exact Nat.le_refl _

theorem afterIn?_length_le {s rest : List Char} (h : afterIn? s = some rest) :
    rest.length ≤ s.length := by
  rw [afterIn?.eq_def] at h
  split at h
  · split at h
    · cases h
    · cases h
      exact Nat.le_add_right _ 2
  · cases h

theorem stripParameters_length_le (s : List Char) : (stripParameters s).length ≤ s.length := by
  rw [stripParameters]
  cases h : afterClosureHead? s with
  | none => exact Nat.le_refl _
  | some rest =>
    obtain ⟨t, ht, h⟩ := Option.bind_eq_some_iff.1 h
    obtain ⟨u, hu, h⟩ := Option.bind_eq_some_iff.1 h
    exact Nat.le_trans (trimLeft_length_le rest) <| Nat.le_trans (afterIn?_length_le h) <|
      Nat.le_trans (afterResultType_length_le u) <| Nat.le_trans (afterParameters?_length_le hu) <|
      Nat.le_trans (afterCaptures_length_le ht) (trimLeft_length_le s)

theorem contentClosure?_length {s inner rest : List Char}
    (h : contentClosure? s = some (inner, rest)) : inner.length + rest.length < s.length := by
  rw [contentClosure?] at h
  split at h
  · have h₁ := trimLeft_length_le (s.drop 7)
    have h₂ : (s.drop 7).length ≤ s.length := by simp only [List.length_drop, Nat.sub_le]
    split at h
    · next t ht =>
      have h₃ := trimLeft_length_le t
      rw [ht, List.length_cons] at h₁
      split at h
      · next block hb =>
        have h₄ := enclosed?_length h
        rw [hb] at h₃
        omega
      · cases h
    · cases h
  · cases h

theorem length_of_mem_labelledClosures {s block : List Char} (h : block ∈ (labelledClosures s).1) :
    block.length < s.length := by
  fun_induction labelledClosures s with
  | case1 => cases h
  | case2 => cases h
  | case3 s text hb inner rest he hlt more ih =>
    rcases List.mem_cons.1 h with rfl | h
    · exact Nat.lt_of_lt_of_le (enclosed?_inner_lt he) (labelledBlock?_length_le hb)
    · exact Nat.lt_trans (ih h) hlt

theorem labelledClosures_length_le (s : List Char) : (labelledClosures s).2.length ≤ s.length := by
  fun_induction labelledClosures s with
  | case1 => exact Nat.le_refl _
  | case2 => exact Nat.zero_le _
  | case3 s block hb inner rest he hlt more ih => exact Nat.le_trans ih (Nat.le_of_lt hlt)

end ViewHierarchy
