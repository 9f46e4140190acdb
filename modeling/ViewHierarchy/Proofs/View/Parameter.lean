import ViewHierarchy.Proofs.View.Commenting
import ViewHierarchy.Proofs.View.Padding

/-! The head of a closure: its captures, its parameters and its result type, up to the word `in`.
Reading takes a head off a block just if the block starts with one, and leaves the statements. -/
namespace ViewHierarchy
open Text Source

variable {s t p w : List Char} {c d : Char}

/-- A list of captures on one line, or none. -/
inductive IsCaptureList : List Char → Prop
  | none : IsCaptureList []
  | list {inner w : List Char} : (∀ c ∈ inner, c ≠ ']' ∧ c ≠ '\n') → (∀ c ∈ w, isBlank c = true) →
      IsCaptureList ('[' :: (inner ++ ']' :: w))

/-- Names with commas between them. -/
inductive IsNameList : List Char → Prop
  | one {c : Char} {name : List Char} : isIdentifierStart c = true →
      (∀ d ∈ name, isIdentifierRest d = true) → IsNameList (c :: name)
  | more {c : Char} {name v w rest : List Char} : isIdentifierStart c = true →
      (∀ d ∈ name, isIdentifierRest d = true) → (∀ d ∈ v, isBlank d = true) →
      (∀ d ∈ w, isBlank d = true) → IsNameList rest →
      IsNameList (c :: (name ++ (v ++ ',' :: (w ++ rest))))

/-- Parameters, in parentheses on one line or as plain names. -/
inductive IsParameterList : List Char → Prop
  | round {inner w : List Char} : (∀ c ∈ inner, c ∉ ['(', ')', '{', '}', '"', '\n']) →
      (∀ c ∈ w, isBlank c = true) → IsParameterList ('(' :: (inner ++ ')' :: w))
  | names {names w : List Char} : IsNameList names → (∀ c ∈ w, isBlank c = true) → w ≠ [] →
      IsParameterList (names ++ w)

/-- A result type with its arrow, or none. -/
inductive IsResultType : List Char → Prop
  | none : IsResultType []
  | arrow {v type w : List Char} : (∀ c ∈ v, isBlank c = true) → type ≠ [] →
      (∀ c ∈ type, isTypeCharacter c = true) → (∀ c ∈ w, isBlank c = true) → w ≠ [] →
      IsResultType ('-' :: '>' :: (v ++ (type ++ w)))

/-- What may stand at the head of a closure, with the word `in` that ends it. -/
inductive IsClosureHead : List Char → Prop
  | intro {captures parameters result : List Char} : IsCaptureList captures →
      IsParameterList parameters → IsResultType result →
      IsClosureHead (captures ++ (parameters ++ (result ++ ['i', 'n'])))

/-- A class that holds no white space stops at it. -/
theorem stops_blank_append {p : Char → Bool} (hp : ∀ c, isBlank c = true → p c = false)
    (hw : ∀ c ∈ w, isBlank c = true) (hne : w ≠ []) (t : List Char) : Stops p (w ++ t) :=
  (stops_of_forall fun c hc => hp c (hw c hc)).extend hne t

theorem isIdentifierRest_of_isBlank (h : isBlank c = true) : isIdentifierRest c = false := by
  rw [isIdentifierRest, isWord_of_isBlank h, Bool.false_or, beq_eq_false_iff_ne]
  rintro rfl
  cases h

theorem isTypeCharacter_of_isBlank (h : isBlank c = true) : isTypeCharacter c = false := by
  rw [isTypeCharacter, isWord_of_isBlank h, Bool.false_or, ← Bool.not_eq_true,
    List.contains_iff_mem]
  intro hmem
  simp only [List.mem_cons, List.not_mem_nil, or_false] at hmem
  rcases hmem with rfl | rfl | rfl | rfl | rfl | rfl | rfl <;> cases h

theorem isIdentifierRest_of_start (h : isIdentifierStart c = true) :
    isIdentifierRest c = true := by
  rw [isIdentifierStart, Bool.or_eq_true] at h
  rw [isIdentifierRest]
  rcases h with h | h
  · rw [isWord_of_isAsciiRest (isAsciiRest_of_start h), Bool.true_or]
  · rw [h, Bool.or_true]

theorem isBlank_of_start (h : isIdentifierStart c = true) : isBlank c = false :=
  isBlank_of_class (fun _ => isIdentifierRest_of_isBlank) (isIdentifierRest_of_start h)

theorem IsNameList.exists_start (h : IsNameList p) :
    ∃ c t, p = c :: t ∧ isIdentifierStart c = true := by
  cases h with
  | one hc _ => exact ⟨_, _, rfl, hc⟩
  | more hc _ _ _ _ => exact ⟨_, _, rfl, hc⟩

/-! A head is read to its end if what follows does not go on with it. -/

theorem afterBlanks?_append (hw : ∀ c ∈ w, isBlank c = true) (hne : w ≠ [])
    (ht : Stops isBlank t) : afterBlanks? (w ++ t) = some t := by
  obtain ⟨c, w, rfl⟩ := List.exists_cons_of_ne_nil hne
  obtain ⟨hc, hw⟩ := List.forall_mem_cons.1 hw
  rw [List.cons_append, afterBlanks?, if_pos hc, trimLeft_blank_append hw, trimLeft_of_stops ht]

theorem IsCaptureList.afterCaptures (h : IsCaptureList p) (ht : Stops isBlank t)
    (hhead : ∀ c ∈ t.head?, c ≠ '[') : afterCaptures (p ++ t) = some t := by
  cases h with
  | none => exact afterCaptures_of_head hhead
  | @list inner w hinner hw =>
    have hclass : ∀ c ∈ inner, (c != ']' && c != '\n') = true := by
      intro c hc
      simpa using hinner c hc
    have hstop : Stops (fun c => c != ']' && c != '\n') (']' :: (w ++ t)) :=
      stops_cons (by decide) _
    have hdrop := hstop.dropWhile_append hclass
    rw [List.cons_append, List.append_assoc, List.cons_append, ViewHierarchy.afterCaptures, hdrop]
    simp only [trimLeft_blank_append hw, trimLeft_of_stops ht]

theorem IsNameList.afterIdentifiers? (h : IsNameList p) (ht : Stops isIdentifierRest t)
    (hcomma : ∀ c ∈ (trimLeft t).head?, c ≠ ',') : afterIdentifiers? (p ++ t) = some t := by
  induction h with
  | one hc hname =>
    rw [List.cons_append, afterIdentifiers?_name hc hname ht]
    split
    · next more hm => exact absurd rfl (hcomma ',' (hm ▸ rfl))
    · rfl
  | @more c name v w rest hc hname hv hw hrest ih =>
    obtain ⟨d, u, rfl, hd⟩ := hrest.exists_start
    have hstop : Stops isIdentifierRest (v ++ ',' :: (w ++ (d :: u ++ t))) :=
      (stops_of_forall fun c hc => isIdentifierRest_of_isBlank (hv c hc)).append
        (stops_cons (by decide) _)
    have htext : c :: (name ++ (v ++ ',' :: (w ++ d :: u))) ++ t =
        c :: (name ++ (v ++ ',' :: (w ++ (d :: u ++ t)))) := by
      simp only [List.cons_append, List.append_assoc]
    have hmore : trimLeft (w ++ (d :: u ++ t)) = d :: u ++ t := by
      rw [trimLeft_blank_append hw, List.cons_append, trimLeft_kept (isBlank_of_start hd)]
    rw [htext, afterIdentifiers?_name hc hname hstop, trimLeft_blank_append hv,
      trimLeft_kept (by decide)]
    simp only [hmore, ih, Option.getD_some]

theorem IsParameterList.afterParameters? (h : IsParameterList p) (ht : Stops isBlank t)
    (hcomma : ∀ c ∈ t.head?, c ≠ ',') : afterParameters? (p ++ t) = some t := by
  cases h with
  | @round inner w hinner hw =>
    have hclass : ∀ c ∈ inner, (!(['(', ')', '{', '}', '"', '\n'].contains c)) = true := by
      intro c hc
      simpa using hinner c hc
    have hstop : Stops (fun c => !(['(', ')', '{', '}', '"', '\n'].contains c))
        (')' :: (w ++ t)) := stops_cons (by decide) _
    have hdrop := hstop.dropWhile_append hclass
    rw [List.cons_append, List.append_assoc, List.cons_append, ViewHierarchy.afterParameters?,
      hdrop]
    simp only [trimLeft_blank_append hw, trimLeft_of_stops ht]
  | @names names w hnames hw hne =>
    obtain ⟨c, u, hcons, hc⟩ := hnames.exists_start
    have hhead : ∀ d ∈ (names ++ w ++ t).head?, d ≠ '(' := by
      rw [hcons]
      rintro d ⟨⟩
      exact ne_of_class hc (by decide)
    have hstop := stops_blank_append (fun _ => isIdentifierRest_of_isBlank) hw hne t
    have htrim : trimLeft (w ++ t) = t := by
      rw [trimLeft_blank_append hw, trimLeft_of_stops ht]
    rw [afterParameters?_of_head hhead, List.append_assoc,
      hnames.afterIdentifiers? hstop (by rwa [htrim]), Option.bind_some,
      afterBlanks?_append hw hne ht]

theorem IsResultType.afterResultType (h : IsResultType p) (ht : Stops isBlank t)
    (hhead : ∀ c ∈ t.head?, c ≠ '-') : afterResultType (p ++ t) = t := by
  cases h with
  | none => exact afterResultType_of_head hhead
  | @arrow v type w hv hne htype hw hne' =>
    obtain ⟨c, more, rfl⟩ := List.exists_cons_of_ne_nil hne
    obtain ⟨hc, hmore⟩ := List.forall_mem_cons.1 htype
    have hblank := isBlank_of_class (fun _ => isTypeCharacter_of_isBlank) hc
    have hstop := stops_blank_append (fun _ => isTypeCharacter_of_isBlank) hw hne' t
    have htrim : trimLeft (v ++ (c :: more ++ w) ++ t) = c :: (more ++ (w ++ t)) := by
      rw [List.append_assoc, trimLeft_blank_append hv, List.cons_append, List.cons_append,
        trimLeft_kept hblank, List.append_assoc]
    rw [List.cons_append, List.cons_append, ViewHierarchy.afterResultType, htrim]
    simp only [hc, if_true, hstop.dropWhile_append hmore, afterBlanks?_append hw hne' ht,
      Option.getD_some]

theorem afterIn?_eq_some_iff : afterIn? s = some t ↔ s = 'i' :: 'n' :: t ∧ Stops isWord t := by
  constructor
  · intro h
    rw [afterIn?.eq_def] at h
    split at h
    · next rest =>
      split at h
      · cases h
      · next hword =>
        cases h
        refine ⟨rfl, fun c hc => ?_⟩
        rw [Option.mem_def.1 hc] at hword
        exact Bool.not_eq_true _ ▸ hword
    · cases h
  · rintro ⟨rfl, ht⟩
    rw [afterIn?, if_neg]
    cases t with
    | nil => exact Bool.false_ne_true
    | cons c t => simpa using ht c rfl

/-! What is read is a head. -/

theorem exists_afterBlanks? (h : afterBlanks? s = some t) :
    ∃ w, s = w ++ t ∧ (∀ c ∈ w, isBlank c = true) ∧ w ≠ [] ∧ Stops isBlank t := by
  cases s with
  | nil => cases h
  | cons c s =>
    rw [afterBlanks?, Option.ite_none_right_eq_some] at h
    obtain ⟨hc, h⟩ := h
    cases h
    obtain ⟨w, hs, hw⟩ := exists_trimLeft s
    exact ⟨c :: w, congrArg _ hs, List.forall_mem_cons.2 ⟨hc, hw⟩, List.cons_ne_nil c w,
      stops_dropWhile isBlank s⟩

theorem exists_afterCaptures (h : afterCaptures s = some t) (hs : Stops isBlank s) :
    ∃ p, s = p ++ t ∧ IsCaptureList p ∧ Stops isBlank t := by
  rw [afterCaptures.eq_def] at h
  split at h
  · next rest =>
    split at h
    · next after hafter =>
      cases h
      obtain ⟨inner, hrest, hinner⟩ := exists_dropWhile (fun c => c != ']' && c != '\n') rest
      obtain ⟨w, hw, hblank⟩ := exists_trimLeft after
      refine ⟨'[' :: (inner ++ ']' :: w), ?_, .list (fun c hc => ?_) hblank,
        stops_dropWhile isBlank after⟩
      · rw [List.cons_append, List.append_assoc, List.cons_append, ← hw, ← hafter, ← hrest]
      · simpa using hinner c hc
    · cases h
  · cases h
    exact ⟨[], rfl, .none, hs⟩

theorem exists_afterIdentifiers? (h : afterIdentifiers? s = some t) :
    ∃ p, s = p ++ t ∧ IsNameList p := by
  fun_induction afterIdentifiers? s generalizing t with
  | case1 => cases h
  | case2 c rest hc more hmore hlt ih =>
    cases h
    obtain ⟨name, hrest, hname⟩ := exists_dropWhile isIdentifierRest rest
    cases hm : afterIdentifiers? (trimLeft more) with
    | none =>
      rw [Option.getD_none]
      exact ⟨c :: name, congrArg _ hrest, .one hc hname⟩
    | some after =>
      obtain ⟨names, hnames, hlist⟩ := ih hm
      obtain ⟨v, hv, hblank⟩ := exists_trimLeft (rest.dropWhile isIdentifierRest)
      obtain ⟨w, hw, hblank'⟩ := exists_trimLeft more
      rw [hmore] at hv
      rw [hnames] at hw
      refine ⟨_, ?_, .more hc hname hblank hblank' hlist⟩
      rw [Option.getD_some, hrest, hv, hw]
      simp only [List.cons_append, List.append_assoc]
  | case3 c rest hc hmore =>
    cases h
    obtain ⟨name, hrest, hname⟩ := exists_dropWhile isIdentifierRest rest
    exact ⟨c :: name, congrArg _ hrest, .one hc hname⟩
  | case4 => cases h

theorem exists_afterParameters? (h : afterParameters? s = some t) :
    ∃ p, s = p ++ t ∧ IsParameterList p ∧ Stops isBlank t := by
  rw [afterParameters?.eq_def] at h
  split at h
  · next rest =>
    split at h
    · next after hafter =>
      cases h
      obtain ⟨inner, hrest, hinner⟩ :=
        exists_dropWhile (fun c => !(['(', ')', '{', '}', '"', '\n'].contains c)) rest
      obtain ⟨w, hw, hblank⟩ := exists_trimLeft after
      refine ⟨'(' :: (inner ++ ')' :: w), ?_, .round (fun c hc => ?_) hblank,
        stops_dropWhile isBlank after⟩
      · rw [List.cons_append, List.append_assoc, List.cons_append, ← hw, ← hafter, ← hrest]
      · simpa using hinner c hc
    · cases h
  · obtain ⟨after, hnames, hblanks⟩ := Option.bind_eq_some_iff.1 h
    obtain ⟨names, rfl, hlist⟩ := exists_afterIdentifiers? hnames
    obtain ⟨w, rfl, hblank, hne, hstop⟩ := exists_afterBlanks? hblanks
    exact ⟨names ++ w, (List.append_assoc _ _ _).symm, .names hlist hblank hne, hstop⟩

theorem exists_afterResultType (s : List Char) :
    ∃ p, s = p ++ afterResultType s ∧ IsResultType p := by
  have hnone : ∃ p, s = p ++ s ∧ IsResultType p := ⟨[], rfl, .none⟩
  rw [afterResultType.eq_def]
  split
  · next rest =>
    split
    · next c more hmore =>
      split
      · next hc =>
        cases hb : afterBlanks? (more.dropWhile isTypeCharacter) with
        | none => exact hnone
        | some after =>
          obtain ⟨v, hv, hblank⟩ := exists_trimLeft rest
          obtain ⟨type, htype, hchars⟩ := exists_dropWhile isTypeCharacter more
          obtain ⟨w, hw, hblank', hne, -⟩ := exists_afterBlanks? hb
          rw [hmore, htype, hw] at hv
          refine ⟨_, ?_, .arrow hblank (List.cons_ne_nil c type)
            (List.forall_mem_cons.2 ⟨hc, hchars⟩) hblank' hne⟩
          rw [Option.getD_some, hv]
          simp only [List.cons_append, List.append_assoc]
      · exact hnone
    · exact hnone
  · exact hnone

/-- Parameters start with a parenthesis or a name. -/
theorem IsParameterList.head (h : IsParameterList p) (t : List Char) :
    ∀ c ∈ (p ++ t).head?, c = '(' ∨ isIdentifierStart c = true := by
  cases h with
  | round _ _ =>
    rintro c ⟨⟩
    exact .inl rfl
  | names hnames _ _ =>
    obtain ⟨c, u, rfl, hc⟩ := hnames.exists_start
    rintro d ⟨⟩
    exact .inr hc

theorem IsParameterList.stops (h : IsParameterList p) (t : List Char) :
    Stops isBlank (p ++ t) := by
  intro c hc
  rcases h.head t c hc with rfl | hstart
  · rfl
  · exact isBlank_of_start hstart

/-- Behind the parameters stands the arrow of the result type or the word `in`. -/
theorem IsResultType.head (h : IsResultType p) (t : List Char) :
    ∀ c ∈ (p ++ 'i' :: t).head?, c = '-' ∨ c = 'i' := by
  cases h with
  | none =>
    rintro c ⟨⟩
    exact .inr rfl
  | arrow _ _ _ _ _ =>
    rintro c ⟨⟩
    exact .inl rfl

theorem IsResultType.stops (h : IsResultType p) (t : List Char) :
    Stops isBlank (p ++ 'i' :: t) := by
  intro c hc
  rcases h.head t c hc with rfl | rfl <;> rfl

/-- A head is read to its end. -/
theorem IsClosureHead.afterClosureHead? (h : IsClosureHead p) (hw : ∀ c ∈ w, isBlank c = true)
    (ht : Stops isWord t) : afterClosureHead? (w ++ (p ++ t)) = some t := by
  obtain @⟨captures, parameters, result, hcaptures, hparameters, hresult⟩ := h
  have hparametersStops := hparameters.stops (result ++ 'i' :: 'n' :: t)
  have hstops : Stops isBlank (captures ++ (parameters ++ (result ++ 'i' :: 'n' :: t))) := by
    cases hcaptures with
    | none => exact hparametersStops
    | list _ _ => exact stops_cons rfl _
  have hread₁ := hcaptures.afterCaptures hparametersStops (by
    intro c hc
    rcases hparameters.head _ c hc with rfl | hstart
    · decide
    · exact ne_of_class hstart (by decide))
  have hread₂ := hparameters.afterParameters? (hresult.stops ('n' :: t)) (by
    intro c hc
    rcases hresult.head ('n' :: t) c hc with rfl | rfl <;> decide)
  have hread₃ := hresult.afterResultType (t := 'i' :: 'n' :: t) (stops_cons rfl _)
    (by rintro c ⟨⟩; decide)
  have htext : captures ++ (parameters ++ (result ++ ['i', 'n'])) ++ t =
      captures ++ (parameters ++ (result ++ 'i' :: 'n' :: t)) := by
    simp only [List.append_assoc, List.cons_append, List.nil_append]
  rw [htext, ViewHierarchy.afterClosureHead?, trimLeft_blank_append hw, trimLeft_of_stops hstops]
  simp only [hread₁, hread₂, hread₃, Option.bind_eq_bind, Option.bind_some]
  exact afterIn?_eq_some_iff.2 ⟨rfl, ht⟩

/-- A head is read just where the text starts with one, white space aside, and its last word ends
there. -/
theorem afterClosureHead?_eq_some_iff : afterClosureHead? s = some t ↔
    ∃ w p, s = w ++ (p ++ t) ∧ (∀ c ∈ w, isBlank c = true) ∧ IsClosureHead p ∧ Stops isWord t := by
  constructor
  · intro h
    obtain ⟨s₁, hcaptures, h₁⟩ := Option.bind_eq_some_iff.1 h
    obtain ⟨s₂, hparameters, h₂⟩ := Option.bind_eq_some_iff.1 h₁
    obtain ⟨w, hs, hw⟩ := exists_trimLeft s
    obtain ⟨p₁, hp₁, hcaptures', -⟩ := exists_afterCaptures hcaptures (stops_dropWhile isBlank s)
    obtain ⟨p₂, hp₂, hparameters', -⟩ := exists_afterParameters? hparameters
    obtain ⟨p₃, hp₃, hresult⟩ := exists_afterResultType s₂
    obtain ⟨hin, ht⟩ := afterIn?_eq_some_iff.1 h₂
    refine ⟨w, _, ?_, hw, ⟨hcaptures', hparameters', hresult⟩, ht⟩
    rw [hs, hp₁, hp₂, hp₃, hin]
    simp only [List.append_assoc, List.cons_append, List.nil_append]
  · rintro ⟨w, p, rfl, hw, hp, ht⟩
    exact hp.afterClosureHead? hw ht

/-- The text starts with the head of a closure, white space aside. -/
def StartsWithHead (s : List Char) : Prop :=
  ∃ w p t, s = w ++ (p ++ t) ∧ (∀ c ∈ w, isBlank c = true) ∧ IsClosureHead p ∧ Stops isWord t

theorem afterClosureHead?_eq_none_iff : afterClosureHead? s = none ↔ ¬StartsWithHead s := by
  rw [Option.eq_none_iff_forall_ne_some]
  simp only [StartsWithHead, ne_eq, afterClosureHead?_eq_some_iff]
  constructor
  · rintro h ⟨w, p, t, hs⟩
    exact h t ⟨w, p, hs⟩
  · rintro h t ⟨w, p, hs⟩
    exact h ⟨w, p, t, hs⟩

theorem startsWithHead_blank_append {v : List Char} (hv : ∀ c ∈ v, isBlank c = true) :
    StartsWithHead (v ++ s) ↔ StartsWithHead s := by
  have hread : afterClosureHead? (v ++ s) = afterClosureHead? s := by
    rw [afterClosureHead?, afterClosureHead?, trimLeft_blank_append hv]
  rw [← not_iff_not, ← afterClosureHead?_eq_none_iff, ← afterClosureHead?_eq_none_iff, hread]

/-- No white space stands at the end of a head. -/
theorem IsClosureHead.eq_nil_of_blank {u v : List Char} (h : IsClosureHead p)
    (hu : u ++ p = s ++ v) (hv : ∀ c ∈ v, isBlank c = true) : v = [] := by
  obtain @⟨captures, parameters, result, -, -, -⟩ := h
  by_contra hne
  have hlast : v.getLast hne = 'n' := by
    have htext : s ++ v = (u ++ (captures ++ (parameters ++ (result ++ ['i'])))) ++ ['n'] := by
      rw [← hu]
      simp only [List.append_assoc, List.cons_append, List.nil_append]
    rw [← List.getLast_append_of_ne_nil (List.append_ne_nil_of_right_ne_nil s hne) hne]
    simp only [htext, List.getLast_concat]
  have hblank := hv _ (List.getLast_mem hne)
  rw [hlast] at hblank
  cases hblank

theorem startsWithHead_append_blank (hw : ∀ c ∈ w, isBlank c = true)
    (h : StartsWithHead (s ++ w)) : StartsWithHead s := by
  obtain ⟨u, p, t, hs, hu, hp, ht⟩ := h
  rw [← List.append_assoc, List.append_eq_append_iff] at hs
  rcases hs with ⟨v, hv, hrest⟩ | ⟨t', rfl, rfl⟩
  · have hempty := hp.eq_nil_of_blank hv fun c hc => hw c (hrest ▸ List.mem_append_left t hc)
    rw [hempty, List.append_nil] at hv
    exact ⟨u, p, [], by rw [List.append_nil, hv], hu, hp, stops_nil⟩
  · exact ⟨u, p, t', List.append_assoc u p t', hu, hp, ht.of_prefix (List.prefix_append t' w)⟩

/-- White space around a text does not make it start with a head. -/
theorem startsWithHead_padded {v : List Char} (hv : ∀ c ∈ v, isBlank c = true)
    (hw : ∀ c ∈ w, isBlank c = true) (h : StartsWithHead (v ++ (s ++ w))) : StartsWithHead s :=
  startsWithHead_append_blank hw ((startsWithHead_blank_append hv).1 h)

/-- The text ForEach(xs) with a block, a space on each side of what is in it. -/
def forEachText (block : List Char) : List Char :=
  expressionText "ForEach".toList "xs".toList (' ' :: (block ++ [' '])) [] []

theorem children_forEachText (st : Settings) {block : List Char} (h : Fills '{' '}' block) :
    (parseExpression st (forEachText block)).children =
      parseBlock st (stripParameters (' ' :: (block ++ [' ']))) := by
  have hblank : ∀ c ∈ [' '], isBlank c = true := List.forall_mem_singleton.2 rfl
  have hpadded : Fills '{' '}' (' ' :: (block ++ [' '])) := h.padded rfl hblank hblank
  have hclosures : labelledClosures (trimRight []) = ([], []) :=
    labelledClosures_none stops_nil stops_nil
  have hcontent : Element.argumentContent "ForEach".toList "xs".toList = [] := by decide
  rw [forEachText, children_expressionText st (by decide) (List.all_eq_true.1 (by decide)) (by decide)
    hpadded, hclosures, hcontent, List.nil_append, List.flatMap_singleton]

/-- The head of a closure is no part of its statements, and nothing else at the start of a block is
taken for one. -/
theorem children_forEach (st : Settings) (body : List Char) :
    (∀ head, IsClosureHead head → Fills '{' '}' (head ++ ' ' :: body) →
      (parseExpression st (forEachText (head ++ ' ' :: body))).children = parseBlock st body) ∧
    (¬StartsWithHead body → Fills '{' '}' body →
      (parseExpression st (forEachText body)).children = parseBlock st body) := by
  have hblank : ∀ c ∈ [' '], isBlank c = true := List.forall_mem_singleton.2 rfl
  constructor
  · intro head hhead hfills
    have hread : afterClosureHead? (' ' :: ((head ++ ' ' :: body) ++ [' '])) =
        some (' ' :: (body ++ [' '])) := by
      have := hhead.afterClosureHead? (t := ' ' :: (body ++ [' '])) hblank (stops_cons (by decide) _)
      rwa [List.append_assoc]
    rw [children_forEachText st hfills, stripParameters, hread, Option.map_some, Option.getD_some,
      parseBlock_trimLeft]
    exact parseBlock_padded st hblank hblank body
  · intro hhead hfills
    have hread : afterClosureHead? (' ' :: (body ++ [' '])) = none :=
      afterClosureHead?_eq_none_iff.2 fun h => hhead (startsWithHead_padded hblank hblank h)
    rw [children_forEachText st hfills, stripParameters, hread]
    exact parseBlock_padded st hblank hblank body

/-- Captures, two parameters and a result type. -/
def rowHead : List Char := "[weak self] (index, item) -> Row in".toList

theorem isClosureHead_rowHead : IsClosureHead rowHead := by
  have hspace : ∀ c ∈ [' '], isBlank c = true := List.forall_mem_singleton.2 rfl
  have hnames : ("weak self".toList.all fun c => c != ']' && c != '\n') = true := by decide
  have hcaptures : IsCaptureList ('[' :: ("weak self".toList ++ [']', ' '])) :=
    .list (fun c hc => by simpa using List.all_eq_true.1 hnames c hc) hspace
  have hinner : ("index, item".toList.all fun c =>
      !(['(', ')', '{', '}', '"', '\n'].contains c)) = true := by
    decide
  have hparameters : IsParameterList ('(' :: ("index, item".toList ++ [')', ' '])) :=
    .round (fun c hc => by simpa using List.all_eq_true.1 hinner c hc) hspace
  have hresult : IsResultType ('-' :: '>' :: ([' '] ++ ("Row".toList ++ [' ']))) :=
    .arrow hspace (by decide) (List.all_eq_true.1 (by decide)) hspace (by decide)
  have hhead := IsClosureHead.intro hcaptures hparameters hresult
  have htext : rowHead = '[' :: ("weak self".toList ++ [']', ' ']) ++
      ('(' :: ("index, item".toList ++ [')', ' ']) ++
        ('-' :: '>' :: ([' '] ++ ("Row".toList ++ [' '])) ++ ['i', 'n'])) := by
    decide
  rwa [htext]

/-- A row behind its parameters, and a row alone. -/
theorem children_forEach_row :
    (parseExpression .default (forEachText (rowHead ++ ' ' :: "Row(index)".toList))).children =
        parseBlock .default "Row(index)".toList ∧
      (parseExpression .default (forEachText "Row(index)".toList)).children =
        parseBlock .default "Row(index)".toList := by
  have hnone : afterClosureHead? ("Row".toList ++ "(index)".toList) = none :=
    afterClosureHead?_identifier (by decide) (stops_cons (by decide) _)
      (by rintro c ⟨⟩; exact ⟨by decide, by decide⟩) (by decide)
  have htext : "Row(index)".toList = "Row".toList ++ "(index)".toList := by decide
  rw [← htext] at hnone
  obtain ⟨hwith, hwithout⟩ := children_forEach .default "Row(index)".toList
  exact ⟨hwith rowHead isClosureHead_rowHead (by decide),
    hwithout (afterClosureHead?_eq_none_iff.1 hnone) (by decide)⟩

end ViewHierarchy
