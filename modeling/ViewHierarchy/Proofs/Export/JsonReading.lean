import ViewHierarchy.Export.Json

/-! A reader of JSON texts, and what it reads from the text of a tree: that tree, whatever the
indentation. Texts are cut into tokens first, and the tokens go through a machine that keeps the
open arrays and objects on a stack. Numbers and the words for truth and nothing are refused; no tree
holds any. -/
namespace ViewHierarchy

namespace Json

inductive Token where
  | beginArray
  | endArray
  | beginObject
  | endObject
  | colon
  | comma
  | string (s : String)
deriving DecidableEq

def Token.punctuation? (c : Char) : Option Token :=
  match c with
  | '[' => some beginArray
  | ']' => some endArray
  | '{' => some beginObject
  | '}' => some endObject
  | ':' => some colon
  | ',' => some comma
  | _ => none

/-- The white space that may stand between tokens. -/
def isSpace (c : Char) : Bool := c == ' ' || c == '\t' || c == '\n' || c == '\r'

def hexDigit? (c : Char) : Option Nat :=
  if '0' ≤ c ∧ c ≤ '9' then some (c.toNat - '0'.toNat)
  else if 'a' ≤ c ∧ c ≤ 'f' then some (c.toNat - 'a'.toNat + 10)
  else if 'A' ≤ c ∧ c ≤ 'F' then some (c.toNat - 'A'.toNat + 10)
  else none

/-- The number that hexadecimal digits write. -/
def hexNumber? (digits : List Char) : Option Nat :=
  digits.foldlM (fun n c => (hexDigit? c).map (n * 16 + ·)) 0

/-- The code point that a letter behind a backslash stands for. -/
def escaped? (c : Char) : Option Nat :=
  match c with
  | '"' => some 0x22
  | '\\' => some 0x5C
  | '/' => some 0x2F
  | 'b' => some 0x08
  | 'f' => some 0x0C
  | 'n' => some 0x0A
  | 'r' => some 0x0D
  | 't' => some 0x09
  | _ => none

/-- The characters of code points, a character beyond the first plane also as two surrogates. -/
def characters? : List Nat → Option (List Char)
  | [] => some []
  | n :: rest =>
    if 0xD800 ≤ n ∧ n < 0xDC00 then
      match rest with
      | m :: rest =>
        if 0xDC00 ≤ m ∧ m < 0xE000 then
          (characters? rest).map
            (Char.ofNat (0x10000 + (n - 0xD800) * 0x400 + (m - 0xDC00)) :: ·)
        else none
      | [] => none
    else if 0xDC00 ≤ n ∧ n < 0xE000 then none
    else (characters? rest).map (Char.ofNat n :: ·)

mutual

/-- The tokens of a text. -/
def lex : List Char → Option (List Token)
  | [] => some []
  | c :: rest =>
    if isSpace c then lex rest
    else if c = '"' then lexString [] rest
    else
      match Token.punctuation? c with
      | some token => (lex rest).map (token :: ·)
      | none => none

/-- The same inside a string of which some code points were read, the last one first. -/
def lexString (points : List Nat) : List Char → Option (List Token)
  | [] => none
  | '"' :: rest => (characters? points.reverse).bind fun s =>
      (lex rest).map (.string (String.ofList s) :: ·)
  | '\\' :: 'u' :: a :: b :: c :: d :: rest => (hexNumber? [a, b, c, d]).bind fun n =>
      lexString (n :: points) rest
  | '\\' :: c :: rest => (escaped? c).bind fun n => lexString (n :: points) rest
  | c :: rest => if c.toNat < 32 then none else lexString (c.toNat :: points) rest

end

example : lexString [] ['\\', 'u', 'd', '8', '3', 'd', '\\', 'u', 'd', 'e', '0', '0', '"'] =
    some [.string "😀"] := by decide

/-- An open array or object: what stands in it so far, and the name whose value is next. -/
inductive Frame where
  | array (items : List Json)
  | object (fields : List (String × Json)) (name : String)

/-- What a reader waits for, with the open arrays and objects, the inner ones first. -/
inductive State where
  | value (frames : List Frame)
  | firstItem (frames : List Frame)
  | firstName (frames : List Frame)
  | name (fields : List (String × Json)) (frames : List Frame)
  | colon (fields : List (String × Json)) (name : String) (frames : List Frame)
  /-- A value was read; a comma or the end of what it stands in comes next. -/
  | after (value : Json) (frames : List Frame)

def State.beginValue (frames : List Frame) : Token → Option State
  | .string s => some (.after (.string s) frames)
  | .beginArray => some (.firstItem frames)
  | .beginObject => some (.firstName frames)
  | _ => none

def State.step : State → Token → Option State
  | .value frames, token => beginValue frames token
  | .firstItem frames, .endArray => some (.after (.array []) frames)
  | .firstItem frames, token => beginValue (.array [] :: frames) token
  | .firstName frames, .endObject => some (.after (.object []) frames)
  | .firstName frames, .string s => some (.colon [] s frames)
  | .name fields frames, .string s => some (.colon fields s frames)
  | .colon fields s frames, .colon => some (.value (.object fields s :: frames))
  | .after item (.array items :: frames), .comma =>
    some (.value (.array (items ++ [item]) :: frames))
  | .after item (.array items :: frames), .endArray =>
    some (.after (.array (items ++ [item])) frames)
  | .after item (.object fields s :: frames), .comma =>
    some (.name (fields ++ [(s, item)]) frames)
  | .after item (.object fields s :: frames), .endObject =>
    some (.after (.object (fields ++ [(s, item)])) frames)
  | _, _ => none

def State.run (state : State) (tokens : List Token) : Option State := tokens.foldlM step state

/-- The value of a text that holds one value and white space around its tokens. -/
def read? (text : List Char) : Option Json :=
  match (lex text).bind (State.value []).run with
  | some (.after value []) => some value
  | _ => none

theorem characters?_toNat (s : List Char) : characters? (s.map Char.toNat) = some s := by
  induction s with
  | nil => rfl
  | cons c s ih =>
    have hvalid : c.toNat < 0xD800 ∨ 0xDFFF < c.toNat ∧ c.toNat < 0x110000 := c.valid
    rw [List.map_cons, characters?.eq_def]
    dsimp only
    rw [if_neg (by omega), if_neg (by omega), ih, Char.ofNat_toNat]
    rfl

theorem hexDigit?_digitChar : ∀ n < 16, hexDigit? (Nat.digitChar n) = some n := by decide

/-- Two digits behind two zeros write a number below 256. -/
theorem hexNumber?_digits {n : Nat} (h : n < 256) :
    hexNumber? ['0', '0', Nat.digitChar (n / 16), Nat.digitChar (n % 16)] = some n := by
  have hhigh := hexDigit?_digitChar (n / 16) (by omega)
  have hlow := hexDigit?_digitChar (n % 16) (by omega)
  have hzero : hexDigit? '0' = some 0 := by decide
  simp only [hexNumber?, List.foldlM, hzero, hhigh, hlow, Option.map_some, bind, Option.bind_some,
    pure]
  congr 1
  omega

theorem lexString_escape (points : List Nat) (c : Char) (rest : List Char) :
    lexString points (escape c ++ rest) = lexString (c.toNat :: points) rest := by
  unfold escape
  split
  · rfl
  · rfl
  · rfl
  · rfl
  · rfl
  · rfl
  · rfl
  · next hquote hbackslash _ _ _ _ _ =>
    split
    · next hcontrol =>
      have hnumber := hexNumber?_digits (n := c.toNat) (by omega)
      simp only [List.cons_append, List.nil_append]
      rw [lexString, hnumber]
      rfl
    · next hcontrol =>
      rw [List.singleton_append, lexString]
      · exact if_neg hcontrol
      · exact hquote
      · rintro a b d e rest ⟨⟩
        exact absurd rfl hbackslash
      · rintro e rest ⟨⟩
        exact absurd rfl hbackslash

theorem lexString_characters (points : List Nat) (s rest : List Char) :
    lexString points (s.flatMap escape ++ '"' :: rest) =
      lexString ((s.map Char.toNat).reverse ++ points) ('"' :: rest) := by
  induction s generalizing points with
  | nil => rfl
  | cons c s ih =>
    rw [List.flatMap_cons, List.append_assoc, lexString_escape, ih, List.map_cons,
      List.reverse_cons, List.append_assoc, List.singleton_append]

/-- A text is cut into the given tokens, whatever follows it. -/
def Gives (text : List Char) (tokens : List Token) : Prop :=
  ∀ rest, lex (text ++ rest) = (lex rest).map (tokens ++ ·)

theorem Gives.append {s t : List Char} {as bs : List Token} (hs : Gives s as) (ht : Gives t bs) :
    Gives (s ++ t) (as ++ bs) := by
  intro rest
  rw [List.append_assoc, hs, ht, Option.map_map]
  congr 1
  funext tokens
  exact (List.append_assoc as bs tokens).symm

theorem gives_quote (s : String) : Gives (quote s) [.string s] := by
  intro rest
  have hchars : characters? (s.toList.map Char.toNat).reverse.reverse = some s.toList := by
    rw [List.reverse_reverse, characters?_toNat]
  simp only [quote, List.cons_append, List.append_assoc, List.nil_append]
  rw [lex, if_neg (by decide), if_pos rfl, lexString_characters, List.append_nil, lexString, hchars,
    Option.bind_some, String.ofList_toList]

theorem gives_punctuation {c : Char} {token : Token} (h : Token.punctuation? c = some token) :
    Gives [c] [token] := by
  intro rest
  have hspace : isSpace c = false := by
    rw [← Bool.not_eq_true]
    intro hc
    simp only [isSpace, Bool.or_eq_true, beq_iff_eq] at hc
    rcases hc with ((rfl | rfl) | rfl) | rfl <;> cases h
  have hquote : c ≠ '"' := by
    rintro rfl
    cases h
  rw [List.singleton_append, lex, hspace, if_neg Bool.false_ne_true, if_neg hquote, h]
  rfl

theorem gives_space {w : List Char} (h : ∀ c ∈ w, isSpace c = true) : Gives w [] := by
  intro rest
  refine Eq.trans ?_ (Option.map_id' (x := lex rest)).symm
  induction w with
  | nil => rfl
  | cons c w ih =>
    obtain ⟨hc, hw⟩ := List.forall_mem_cons.1 h
    rw [List.cons_append, lex, if_pos hc, ih hw]

/-- The layout for an indentation, if there is one. -/
def Layout.ofIndent : Option Int → Layout
  | none => .line
  | some n => .spaces n

theorem gives_break (indent : Option Int) (level : Nat) :
    Gives ((Layout.ofIndent indent).breakAt level) [] := by
  apply gives_space
  intro c hc
  cases indent with
  | none => cases hc
  | some n =>
    rcases List.mem_cons.1 hc with rfl | hc
    · decide
    · obtain ⟨unit, hunit, hc⟩ := List.mem_flatten.1 hc
      rw [List.eq_of_mem_replicate hunit] at hc
      rw [List.eq_of_mem_replicate hc]
      decide

theorem gives_separator (indent : Option Int) (level : Nat) :
    Gives ((Layout.ofIndent indent).separator level) [.comma] := by
  have hcomma : Gives [','] [.comma] := gives_punctuation rfl
  cases indent with
  | none => exact hcomma.append (gives_space (w := [' ']) (List.forall_mem_singleton.2 (by decide)))
  | some n => exact hcomma.append (gives_break (some n) level)

mutual

/-- The tokens of a value. -/
def tokens : Json → List Token
  | string s => [.string s]
  | array [] => [.beginArray, .endArray]
  | array (item :: items) => .beginArray :: tokens item ++ itemTokens items ++ [.endArray]
  | object [] => [.beginObject, .endObject]
  | object ((name, value) :: fields) =>
    .beginObject :: .string name :: .colon :: tokens value ++ fieldTokens fields ++ [.endObject]

def itemTokens : List Json → List Token
  | [] => []
  | item :: items => .comma :: tokens item ++ itemTokens items

def fieldTokens : List (String × Json) → List Token
  | [] => []
  | (name, value) :: fields =>
    .comma :: .string name :: .colon :: tokens value ++ fieldTokens fields

end

/-- The text between a name and its value. -/
theorem gives_colon : Gives [':', ' '] [.colon] :=
  (gives_punctuation (c := ':') rfl).append
    (gives_space (w := [' ']) (List.forall_mem_singleton.2 (by decide)))

mutual

/-- Rendering a value writes its tokens. -/
theorem gives_render (indent : Option Int) (level : Nat) :
    ∀ value : Json, Gives (render (.ofIndent indent) level value) (tokens value)
  | string s => by
    rw [render, tokens]
    exact gives_quote s
  | array [] => (gives_punctuation (c := '[') rfl).append (gives_punctuation rfl)
  | array (item :: items) => by
    have hopen := (gives_punctuation (c := '[') rfl).append (gives_break indent (level + 1))
    have hitems := (gives_render indent (level + 1) item).append
      (gives_renderItems indent (level + 1) items)
    have hclose := (gives_break indent level).append (gives_punctuation (c := ']') rfl)
    have h := (hopen.append hitems).append hclose
    rw [render, tokens]
    simpa only [List.append_assoc, List.cons_append, List.nil_append] using h
  | object [] => (gives_punctuation (c := '{') rfl).append (gives_punctuation rfl)
  | object ((name, value) :: fields) => by
    have hopen := (gives_punctuation (c := '{') rfl).append (gives_break indent (level + 1))
    have hfields := (((gives_quote name).append gives_colon).append
      (gives_render indent (level + 1) value)).append
      (gives_renderFields indent (level + 1) fields)
    have hclose := (gives_break indent level).append (gives_punctuation (c := '}') rfl)
    have h := (hopen.append hfields).append hclose
    rw [render, tokens]
    simpa only [List.append_assoc, List.cons_append, List.nil_append] using h

theorem gives_renderItems (indent : Option Int) (level : Nat) :
    ∀ items : List Json, Gives (renderItems (.ofIndent indent) level items) (itemTokens items)
  | [] => gives_space (List.forall_mem_nil _)
  | item :: items => by
    have h := ((gives_separator indent level).append (gives_render indent level item)).append
      (gives_renderItems indent level items)
    rw [renderItems, itemTokens]
    exact h

theorem gives_renderFields (indent : Option Int) (level : Nat) :
    ∀ fields : List (String × Json),
      Gives (renderFields (.ofIndent indent) level fields) (fieldTokens fields)
  | [] => gives_space (List.forall_mem_nil _)
  | (name, value) :: fields => by
    have h := ((((gives_separator indent level).append (gives_quote name)).append
      gives_colon).append (gives_render indent level value)).append
      (gives_renderFields indent level fields)
    rw [renderFields, fieldTokens]
    simpa only [List.append_assoc, List.cons_append, List.nil_append] using h

end

theorem run_append (state : State) (as bs : List Token) :
    state.run (as ++ bs) = (state.run as).bind fun state => state.run bs := List.foldlM_append

theorem run_cons {state next : State} {token : Token} (h : state.step token = some next)
    (tokens : List Token) : state.run (token :: tokens) = next.run tokens := by
  rw [State.run, List.foldlM_cons, h]
  rfl

/-- The first item of an array is read like any other. -/
theorem run_firstItem (frames : List Frame) : ∀ item : Json,
    (State.firstItem frames).run (tokens item) =
      (State.value (.array [] :: frames)).run (tokens item)
  | string _ => rfl
  | array [] => rfl
  | array (_ :: _) => rfl
  | object [] => rfl
  | object (_ :: _) => rfl

mutual

/-- The tokens of a value are read as that value, whatever is open. -/
theorem run_tokens : ∀ (value : Json) (frames : List Frame),
    (State.value frames).run (tokens value) = some (.after value frames)
  | string s, frames => rfl
  | array [], frames => rfl
  | array (item :: items), frames => by
    have hopen : State.step (.value frames) .beginArray = some (.firstItem frames) := rfl
    rw [tokens, List.append_assoc, List.cons_append, run_cons hopen, run_append, run_firstItem,
      run_tokens item, Option.bind_some]
    exact run_itemTokens items [] item frames
  | object [], frames => rfl
  | object ((name, value) :: fields), frames => by
    have hopen : State.step (.value frames) .beginObject = some (.firstName frames) := rfl
    have hname : State.step (.firstName frames) (.string name) = some (.colon [] name frames) := rfl
    have hcolon : State.step (.colon [] name frames) .colon =
        some (.value (.object [] name :: frames)) := rfl
    simp only [tokens, List.append_assoc, List.cons_append]
    rw [run_cons hopen, run_cons hname, run_cons hcolon, run_append, run_tokens value,
      Option.bind_some]
    exact run_fieldTokens fields [] name value frames

theorem run_itemTokens : ∀ (items before : List Json) (item : Json) (frames : List Frame),
    (State.after item (.array before :: frames)).run (itemTokens items ++ [.endArray]) =
      some (.after (.array (before ++ item :: items)) frames)
  | [], before, item, frames => rfl
  | next :: items, before, item, frames => by
    have hcomma : State.step (.after item (.array before :: frames)) .comma =
        some (.value (.array (before ++ [item]) :: frames)) := rfl
    simp only [itemTokens, List.append_assoc, List.cons_append]
    rw [run_cons hcomma, run_append, run_tokens next, Option.bind_some, run_itemTokens items,
      List.append_assoc, List.singleton_append]

theorem run_fieldTokens : ∀ (fields before : List (String × Json)) (name : String) (value : Json)
    (frames : List Frame),
    (State.after value (.object before name :: frames)).run (fieldTokens fields ++ [.endObject]) =
      some (.after (.object (before ++ (name, value) :: fields)) frames)
  | [], before, name, value, frames => rfl
  | (next, value') :: fields, before, name, value, frames => by
    have hcomma : State.step (.after value (.object before name :: frames)) .comma =
        some (.name (before ++ [(name, value)]) frames) := rfl
    have hname : State.step (.name (before ++ [(name, value)]) frames) (.string next) =
        some (.colon (before ++ [(name, value)]) next frames) := rfl
    have hcolon : State.step (.colon (before ++ [(name, value)]) next frames) .colon =
        some (.value (.object (before ++ [(name, value)]) next :: frames)) := rfl
    simp only [fieldTokens, List.append_assoc, List.cons_append]
    rw [run_cons hcomma, run_cons hname, run_cons hcolon, run_append, run_tokens value',
      Option.bind_some, run_fieldTokens fields, List.append_assoc, List.singleton_append]

end

/-- Reading what was written gives the value back. -/
theorem read?_render (indent : Option Int) (value : Json) :
    read? (render (.ofIndent indent) 0 value ++ ['\n']) = some value := by
  have hline : Gives ['\n'] [] := gives_space (List.forall_mem_singleton.2 (by decide))
  have hlex := ((gives_render indent 0 value).append hline) []
  rw [List.append_nil, List.append_nil] at hlex
  rw [read?, hlex, lex, Option.map_some, Option.bind_some, List.append_nil, run_tokens]

end Json

namespace ViewNode

mutual

/-- The value of a tree determines the tree. -/
theorem toJson_inj : ∀ a b : ViewNode, a.toJson = b.toJson → a = b
  | ⟨name, kind, props, modifiers, children⟩, ⟨name', kind', props', modifiers', children'⟩, h => by
    simp only [toJson, Json.object.injEq, List.cons.injEq, Prod.mk.injEq, Json.string.injEq,
      Json.array.injEq, true_and, and_true] at h
    obtain ⟨hkind, hname, hprops, hmodifiers, hchildren⟩ := h
    have hkind : some kind = some kind' := by
      rw [← NodeKind.ofLabel?_label, hkind, NodeKind.ofLabel?_label]
    have hstring : ∀ s t, Json.string s = .string t → s = t := fun _ _ => Json.string.inj
    rw [Option.some.inj hkind, hname, (List.map_inj_right hstring).1 hprops,
      (List.map_inj_right hstring).1 hmodifiers, toJsonForest_inj children children' hchildren]

theorem toJsonForest_inj : ∀ a b : List ViewNode, toJsonForest a = toJsonForest b → a = b
  | [], [], _ => rfl
  | [], _ :: _, h => by
    rw [toJsonForest, toJsonForest] at h
    cases h
  | _ :: _, [], h => by
    rw [toJsonForest, toJsonForest] at h
    cases h
  | a :: as, b :: bs, h => by
    rw [toJsonForest, toJsonForest, List.cons.injEq] at h
    rw [toJson_inj a b h.1, toJsonForest_inj as bs h.2]

end

/-- The text of a tree is read as the value of that tree, whatever the indentation, so texts of
different trees differ. -/
theorem json_lossless :
    (∀ (tree : ViewNode) (indent : Option Int),
        Json.read? (tree.json (.ofIndent indent)).toList = some tree.toJson) ∧
      ∀ (a b : ViewNode) (indent indent' : Option Int),
        a.json (.ofIndent indent) = b.json (.ofIndent indent') → a = b := by
  have hread : ∀ (tree : ViewNode) (indent : Option Int),
      Json.read? (tree.json (.ofIndent indent)).toList = some tree.toJson := by
    intro tree indent
    rw [json, String.toList_ofList, Json.read?_render]
  refine ⟨hread, ?_⟩
  intro a b indent indent' h
  apply toJson_inj
  apply Option.some.inj
  rw [← hread a indent, h, hread b indent']

def quotedText : ViewNode :=
  ⟨"Text", .view, ["\"a\\b\tc\""], [], [⟨"Spacer", .view, [], ["frame(width: 1)"], []⟩]⟩

/-- Two texts without indentation are the same, whichever number asks for them. -/
theorem json_lossless_quotedText :
    Json.read? (quotedText.json (.ofIndent none)).toList = some quotedText.toJson ∧
      quotedText.json (.ofIndent (some 0)) = quotedText.json (.ofIndent (some (-1))) ∧
      quotedText = quotedText := by
  have hlayout : Json.Layout.ofIndent (some 0) = .ofIndent (some (-1)) := rfl
  have htexts : quotedText.json (.ofIndent (some 0)) = quotedText.json (.ofIndent (some (-1))) :=
    congrArg quotedText.json hlayout
  exact ⟨json_lossless.1 quotedText none, htexts,
    json_lossless.2 quotedText quotedText (some 0) (some (-1)) htexts⟩

end ViewNode

end ViewHierarchy
