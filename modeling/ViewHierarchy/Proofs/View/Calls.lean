import ViewHierarchy.Proofs.Source.Locality
import ViewHierarchy.Proofs.Source.Naming
import ViewHierarchy.Proofs.View.Closure
import ViewHierarchy.Proofs.View.Modifier

/-! Chains of calls with any arguments and closures. A call ends where its brackets do, so what they
hold starts no call of its own. -/
namespace ViewHierarchy
open Text Source

variable {rest : List Char}

/-- A call in a chain; its closure is text in braces behind it. -/
structure Call where
  name : List Char
  arguments : Option (List Char)
  closure : Option (List Char)

def Call.argumentsText (call : Call) : List Char :=
  match call.arguments with
  | none => []
  | some arguments => '(' :: (arguments ++ [')'])

/-- The modifier that the call is. -/
def Call.label (call : Call) : List Char := call.name ++ call.argumentsText

def Call.closureText (call : Call) : List Char :=
  match call.closure with
  | none => []
  | some block => ' ' :: '{' :: (block ++ ['}'])

/-- The arguments are the ones of a modifier, and both texts fill their brackets. -/
structure Call.IsClosed (call : Call) : Prop where
  name : IsWordText call.name
  arguments : ∀ arguments ∈ call.arguments,
    arguments ≠ [] ∧ collapse arguments = arguments ∧ Fills '(' ')' arguments
  closure : ∀ block ∈ call.closure, Fills '{' '}' block

/-- Every call behind a dot, with the white space in front of the dot. -/
def chainText : List (List Char × Call) → List Char
  | [] => []
  | (gap, call) :: rest => gap ++ '.' :: (call.label ++ (call.closureText ++ chainText rest))

/-- What stands behind a call: the dot of the next one, or nothing. -/
def Continues (rest : List Char) : Prop := ∀ c ∈ (trimLeft rest).head?, c = '.'

theorem Continues.stops_isWord (h : Continues rest) : Stops isWord rest := by
  cases rest with
  | nil => exact stops_nil
  | cons c rest =>
    cases hc : isBlank c with
    | true => exact stops_cons (isWord_of_isBlank hc) rest
    | false =>
      rw [Continues, trimLeft_kept hc] at h
      cases h c rfl
      exact stops_cons (by decide) rest

theorem Continues.labelledClosures (h : Continues rest) : labelledClosures rest = ([], rest) := by
  have hsplit : rest = rest.takeWhile (fun c => c == ' ' || c == '\t') ++
      rest.dropWhile fun c => c == ' ' || c == '\t' :=
    List.takeWhile_append_dropWhile.symm
  have hblank : ∀ c ∈ rest.takeWhile fun c => c == ' ' || c == '\t', isBlank c = true := by
    intro c hc
    have hspace := List.all_eq_true.1 List.all_takeWhile c hc
    rw [Bool.or_eq_true, beq_iff_eq, beq_iff_eq] at hspace
    rcases hspace with rfl | rfl <;> rfl
  apply labelledClosures_of_drop
  apply Continues.stops_isWord
  rw [Continues, hsplit, trimLeft_blank_append hblank] at h
  exact h

theorem continues_chainText {chain : List (List Char × Call)}
    (h : ∀ p ∈ chain, ∀ c ∈ p.1, isBlank c = true) : Continues (chainText chain) := by
  intro c hc
  cases chain with
  | nil => cases hc
  | cons p chain =>
    obtain ⟨gap, call⟩ := p
    have hgap : ∀ c ∈ gap, isBlank c = true := h _ List.mem_cons_self
    rw [chainText, trimLeft_blank_append hgap, trimLeft_kept (by decide)] at hc
    cases hc
    rfl

variable {call : Call}

theorem Call.trimLeft_closureText (hrest : Continues rest) :
    ∀ c ∈ (trimLeft (call.closureText ++ rest)).head?, c = '{' ∨ c = '.' := by
  rw [Call.closureText]
  cases call.closure with
  | none => exact fun c hc => .inr (hrest c hc)
  | some block =>
    rw [List.cons_append, trimLeft_cons (by decide), List.cons_append, trimLeft_kept (by decide)]
    rintro c ⟨⟩
    exact .inl rfl

theorem Call.stops_isWord (hrest : Continues rest) :
    Stops isWord (call.argumentsText ++ (call.closureText ++ rest)) := by
  rw [Call.argumentsText, Call.closureText]
  cases call.arguments with
  | some arguments => exact stops_cons (by decide) _
  | none =>
    cases call.closure with
    | some block => exact stops_cons (by decide) _
    | none => exact hrest.stops_isWord

theorem Call.IsClosed.modifierArguments (h : call.IsClosed) (hrest : Continues rest) :
    modifierArguments (call.argumentsText ++ (call.closureText ++ rest)) =
      (call.arguments.getD [], call.closureText ++ rest) := by
  rw [Call.argumentsText]
  cases harguments : call.arguments with
  | none =>
    apply modifierArguments_none
    intro c hc
    rcases Call.trimLeft_closureText hrest c hc with rfl | rfl <;> decide
  | some arguments =>
    obtain ⟨-, hcollapse, hfills⟩ := h.arguments arguments harguments
    have henclosed := hfills.enclosed? rfl (call.closureText ++ rest)
    rw [List.cons_append, List.append_assoc, List.singleton_append, ViewHierarchy.modifierArguments,
      trimLeft_kept (by decide)]
    simp only [henclosed, hcollapse, Option.getD_some]

theorem Call.IsClosed.afterModifierClosures (h : call.IsClosed) (hrest : Continues rest) :
    afterModifierClosures (call.closureText ++ rest) = rest := by
  rw [Call.closureText]
  cases hclosure : call.closure with
  | none =>
    apply afterModifierClosures_none
    intro c hc
    rw [hrest c hc]
    decide
  | some block =>
    have henclosed := (h.closure block hclosure).enclosed? rfl rest
    rw [List.cons_append, List.cons_append, List.append_assoc, List.singleton_append,
      ViewHierarchy.afterModifierClosures, trimLeft_cons (by decide), trimLeft_kept (by decide)]
    simp only [henclosed, hrest.labelledClosures]

/-- A call is read up to the end of its closure. -/
theorem Call.IsClosed.modifier? (h : call.IsClosed) (hrest : Continues rest) :
    modifier? (call.label ++ (call.closureText ++ rest)) = some (call.label, rest) := by
  have hstop : Stops isWord (call.argumentsText ++ (call.closureText ++ rest)) :=
    Call.stops_isWord hrest
  have hlabel : (if (call.arguments.getD []).isEmpty then call.name
      else call.name ++ '(' :: call.arguments.getD [] ++ [')']) = call.label := by
    rw [Call.label, Call.argumentsText]
    cases harguments : call.arguments with
    | none => exact (List.append_nil _).symm
    | some arguments =>
      obtain ⟨hne, -⟩ := h.arguments arguments harguments
      rw [Option.getD_some, if_neg (by simpa using hne), List.append_assoc]
      rfl
  rw [Call.label, List.append_assoc, ViewHierarchy.modifier?,
    hstop.takeWhile_append h.name.word, hstop.dropWhile_append h.name.word,
    h.modifierArguments hrest, ← Call.label, ← hlabel]
  obtain ⟨c, name, hname⟩ := List.exists_cons_of_ne_nil h.name.ne_nil
  simp only [hname, h.afterModifierClosures hrest]

/-- A written call is closed, and no closure stands behind it. -/
theorem IsCall.exists_call {m : List Char} (h : IsCall m) :
    ∃ call : Call, call.IsClosed ∧ call.label = m ∧ call.closureText = [] := by
  cases h with
  | plain hm =>
    refine ⟨⟨m, none, none⟩, ⟨⟨ne_nil_of_isName hm, isWord_of_isName hm⟩, ?_, ?_⟩,
      List.append_nil m, rfl⟩
    · rintro _ ⟨⟩
    · rintro _ ⟨⟩
  | @applied m v hm hv =>
    refine ⟨⟨m, some v, none⟩, ⟨⟨ne_nil_of_isName hm, isWord_of_isName hm⟩, ?_, ?_⟩, rfl, rfl⟩
    · rintro _ ⟨⟩
      exact ⟨ne_nil_of_isName hv, collapse_name hv, (tidy_of_isName hv).fills rfl⟩
    · rintro _ ⟨⟩

/-- A chain that was written is read call by call. -/
theorem modifiers_writeChain {ms : List (List Char)} (h : ∀ m ∈ ms, IsCall m) :
    modifiers (writeChain ms) = ms := by
  induction ms with
  | nil => rw [modifiers, writeChain, modifiersFrom]
  | cons m ms ih =>
    obtain ⟨hm, hms⟩ := List.forall_mem_cons.1 h
    obtain ⟨call, hcall, rfl, hclosure⟩ := hm.exists_call
    have hcontinues : Continues (writeChain ms) := head_trimLeft_writeChain ms
    have hmodifier := hcall.modifier? hcontinues
    rw [hclosure, List.nil_append] at hmodifier
    rw [modifiers, writeChain, ← List.singleton_append,
      modifiersFrom_gap (List.forall_mem_singleton.2 rfl),
      modifiersFrom_dot (Int.le_refl 0) hmodifier, ← modifiers, ih hms]

/-- A chain is read call by call, whatever text the arguments and the closures hold. -/
theorem modifiers_chainText (chain : List (List Char × Call))
    (hgap : ∀ p ∈ chain, ∀ c ∈ p.1, isBlank c = true) (hclosed : ∀ p ∈ chain, p.2.IsClosed) :
    modifiers (chainText chain) = chain.map fun p => p.2.label := by
  induction chain with
  | nil => rw [chainText, modifiers, modifiersFrom, List.map_nil]
  | cons p chain ih =>
    obtain ⟨gap, call⟩ := p
    obtain ⟨hblank, hgap⟩ := List.forall_mem_cons.1 hgap
    obtain ⟨hcall, hclosed⟩ := List.forall_mem_cons.1 hclosed
    have hmodifier := hcall.modifier? (continues_chainText hgap)
    rw [chainText, modifiers, modifiersFrom_gap hblank, modifiersFrom_dot (Int.le_refl 0) hmodifier,
      ← modifiers, ih hgap hclosed, List.map_cons]

/-- A call whose string has a bracket and a dot, and one with a closure that holds a chain. -/
def twoCalls : List (List Char × Call) :=
  [(['\n'], ⟨['f'], some ['"', ')', '.', 'a', '"'], none⟩),
    ([' ', '\t'], ⟨['g'], none, some ['v', '.', 'h', '(', ')']⟩)]

theorem modifiers_twoCalls :
    (∀ p ∈ twoCalls, (∀ c ∈ p.1, isBlank c = true) ∧ p.2.IsClosed) ∧
      chainText twoCalls = ['\n', '.', 'f', '(', '"', ')', '.', 'a', '"', ')', ' ', '\t', '.', 'g',
        ' ', '{', 'v', '.', 'h', '(', ')', '}'] ∧
      modifiers (chainText twoCalls) = [['f', '(', '"', ')', '.', 'a', '"', ')'], ['g']] := by
  have hfirst : Call.IsClosed ⟨['f'], some ['"', ')', '.', 'a', '"'], none⟩ :=
    ⟨⟨by decide, List.all_eq_true.1 (by decide)⟩, by rintro _ ⟨⟩; decide, by rintro _ ⟨⟩⟩
  have hsecond : Call.IsClosed ⟨['g'], none, some ['v', '.', 'h', '(', ')']⟩ :=
    ⟨⟨by decide, List.all_eq_true.1 (by decide)⟩, by rintro _ ⟨⟩, by rintro _ ⟨⟩; decide⟩
  have hchain : ∀ p ∈ twoCalls, (∀ c ∈ p.1, isBlank c = true) ∧ p.2.IsClosed :=
    List.forall_mem_cons.2 ⟨⟨List.all_eq_true.1 (by decide), hfirst⟩,
      List.forall_mem_singleton.2 ⟨List.all_eq_true.1 (by decide), hsecond⟩⟩
  exact ⟨hchain, rfl,
    modifiers_chainText _ (fun p hp => (hchain p hp).1) fun p hp => (hchain p hp).2⟩

end ViewHierarchy
