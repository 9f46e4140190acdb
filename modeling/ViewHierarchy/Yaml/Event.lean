import ViewHierarchy.Yaml.Fault
import ViewHierarchy.Yaml.Token

/-! The events of a YAML document: its nodes in order, collections by their start and end. They are
derived from the tokens by a stack of goals, each saying what is expected next. -/
namespace ViewHierarchy.Yaml

inductive Event where
  | documentStart
  | documentEnd
  | streamEnd
  | alias (name : String)
  /-- A scalar with no tag of its own may take one from its text if it is plain. -/
  | scalar (anchor tag : Option String) (plain : Bool) (text : String)
  | sequenceStart (anchor tag : Option String)
  | sequenceEnd
  | mappingStart (anchor tag : Option String)
  | mappingEnd
deriving DecidableEq

inductive Goal where
  | streamStart
  | documentStart
  | directives (versionSeen : Bool)
  | documentContent
  | documentEnd
  /-- A node; a block node may open block collections, and in some places a sequence that is not
  indented. -/
  | node (block unindented : Bool)
  | blockSequenceEntry
  | unindentedEntry
  | blockMappingKey
  | blockMappingValue
  | flowSequenceEntry (first : Bool)
  | flowPairKey
  | flowPairValue
  | flowPairEnd
  | flowMappingKey (first : Bool)
  | flowMappingValue
  | flowMappingNoValue
deriving DecidableEq

/-- What stops a derivation: tokens in a wrong order, or a token that cannot be read. -/
inductive Stop where
  | misplaced
  | unread
deriving DecidableEq

structure Derivation where
  handles : List (String × String)
  goals : List Goal
  tokens : List Token

namespace Derivation

abbrev Step := Except Stop (List Event × Derivation)

def defaultHandles : List (String × String) := [("!", "!"), ("!!", "tag:yaml.org,2002:")]

def emptyScalar : Event := .scalar none none true ""

def goto (d : Derivation) (goals : List Goal) (tokens : List Token) : Derivation :=
  { d with goals, tokens }

def proceed (d : Derivation) (goals : List Goal) (tokens : List Token) : Step :=
  .ok ([], d.goto goals tokens)

def emit (d : Derivation) (e : Event) (goals : List Goal) (tokens : List Token) : Step :=
  .ok ([e], d.goto goals tokens)

/-- Expects a node unless one of the given tokens follows, which leaves it empty. -/
def nodeUnless (d : Derivation) (ends : List Token) (node : Goal) (goals : List Goal)
    (tokens : List Token) : Step :=
  match tokens with
  | [] => .error .unread
  | t :: _ =>
    if t ∈ ends then d.emit emptyScalar goals tokens else d.proceed (node :: goals) tokens

def fullTag (d : Derivation) : Option String → String → Except Stop String
  | none, suffix => .ok suffix
  | some handle, suffix =>
    match d.handles.lookup handle with
    | some lead => .ok (lead ++ suffix)
    | none => .error .misplaced

/-- The anchor and the tag of a node, in either order. -/
def properties (d : Derivation) :
    Except Stop ((Option String × Option String) × List Token) :=
  match d.tokens with
  | [.anchor _] => .error .unread
  | .anchor a :: .tag handle suffix :: ts => do
    return ((some a, some (← d.fullTag handle suffix)), ts)
  | .anchor a :: ts => .ok ((some a, none), ts)
  | [.tag _ _] => .error .unread
  | .tag handle suffix :: .anchor a :: ts => do
    return ((some a, some (← d.fullTag handle suffix)), ts)
  | .tag handle suffix :: ts => do
    return ((none, some (← d.fullTag handle suffix)), ts)
  | ts => .ok ((none, none), ts)

/-- The tag that a node insists on; an exclamation mark alone insists on none. -/
def ownTag (tag : Option String) : Option String := tag.filter (· != "!")

def node (d : Derivation) (block unindented : Bool) (goals : List Goal) : Step :=
  match d.tokens with
  | .alias name :: ts => d.emit (.alias name) goals ts
  | _ => do
    let ((anchor, tag), ts) ← d.properties
    let own := ownTag tag
    let bare := anchor.isNone && tag.isNone
    let other : Step :=
      if bare then .error .misplaced
      else d.emit (.scalar anchor own own.isNone "") goals ts
    match ts with
    | [] => .error .unread
    | .blockEntry :: _ =>
      if unindented then d.emit (.sequenceStart anchor own) (.unindentedEntry :: goals) ts
      else other
    | .scalar plain text :: rest =>
      d.emit (.scalar anchor own ((plain && tag.isNone) || tag == some "!") text) goals rest
    | .flowSequenceStart :: rest =>
      d.emit (.sequenceStart anchor own) (.flowSequenceEntry true :: goals) rest
    | .flowMappingStart :: rest =>
      d.emit (.mappingStart anchor own) (.flowMappingKey true :: goals) rest
    | .blockSequenceStart :: rest =>
      if block then d.emit (.sequenceStart anchor own) (.blockSequenceEntry :: goals) rest
      else other
    | .blockMappingStart :: rest =>
      if block then d.emit (.mappingStart anchor own) (.blockMappingKey :: goals) rest
      else other
    | _ => other

def afterComma (first : Bool) (tokens : List Token) : Except Stop (List Token) :=
  if first then .ok tokens
  else
    match tokens with
    | [] => .error .unread
    | .flowEntry :: ts => .ok ts
    | _ => .error .misplaced

def flowSequenceEntry (d : Derivation) (first : Bool) (goals : List Goal) : Step :=
  match d.tokens with
  | .flowSequenceEnd :: ts => d.emit .sequenceEnd goals ts
  | ts => do
    match ← afterComma first ts with
    | [] => .error .unread
    | .flowSequenceEnd :: ts => d.emit .sequenceEnd goals ts
    | .key :: ts => d.emit (.mappingStart none none) (.flowPairKey :: goals) (.key :: ts)
    | ts => d.proceed (.node false false :: .flowSequenceEntry false :: goals) ts

def flowMappingKey (d : Derivation) (first : Bool) (goals : List Goal) : Step :=
  match d.tokens with
  | .flowMappingEnd :: ts => d.emit .mappingEnd goals ts
  | ts => do
    match ← afterComma first ts with
    | [] => .error .unread
    | .flowMappingEnd :: ts => d.emit .mappingEnd goals ts
    | .key :: ts =>
      d.nodeUnless [.value, .flowEntry, .flowMappingEnd] (.node false false)
        (.flowMappingValue :: goals) ts
    | ts => d.proceed (.node false false :: .flowMappingNoValue :: goals) ts

/-- A directive of the document that is about to start. -/
def directive (d : Derivation) (versionSeen : Bool) (goals : List Goal) : Step :=
  match d.tokens with
  | [] => .error .unread
  | .directive (.version major _) :: ts =>
    if versionSeen || major != 1 then .error .misplaced
    else d.proceed (.directives true :: goals) ts
  | .directive (.tagHandle handle lead) :: ts =>
    if (d.handles.lookup handle).isSome then .error .misplaced
    else { d with handles := (handle, lead) :: d.handles }.proceed (.directives versionSeen :: goals) ts
  | .directive .other :: ts => d.proceed (.directives versionSeen :: goals) ts
  | .documentStart :: ts =>
    { d with handles := d.handles ++ defaultHandles }.emit .documentStart
      (.documentContent :: .documentEnd :: goals) ts
  | _ => .error .misplaced

/-- Works on the top goal; none is left at the end of the stream. -/
def step (d : Derivation) : Goal → List Goal → Step
  | .streamStart, goals =>
    match d.tokens with
    | [] => .error .unread
    | .directive _ :: _ | .documentStart :: _ | .streamEnd :: _ =>
      d.proceed (.documentStart :: goals) d.tokens
    | ts =>
      { d with handles := defaultHandles }.emit .documentStart
        (.node true false :: .documentEnd :: goals) ts
  | .documentStart, goals =>
    match d.tokens with
    | [] => .error .unread
    | .documentEnd :: ts => d.proceed (.documentStart :: goals) ts
    | .streamEnd :: ts => d.emit .streamEnd goals ts
    | ts => { d with handles := [] }.proceed (.directives false :: goals) ts
  | .directives versionSeen, goals => d.directive versionSeen goals
  | .documentContent, goals =>
    match d.tokens with
    | [] => .error .unread
    | .directive _ :: _ | .documentStart :: _ | .documentEnd :: _ | .streamEnd :: _ =>
      d.emit emptyScalar goals d.tokens
    | ts => d.proceed (.node true false :: goals) ts
  | .documentEnd, goals =>
    match d.tokens with
    | [] => .error .unread
    | .documentEnd :: ts => d.emit .documentEnd (.documentStart :: goals) ts
    | ts => d.emit .documentEnd (.documentStart :: goals) ts
  | .node block unindented, goals => d.node block unindented goals
  | .blockSequenceEntry, goals =>
    match d.tokens with
    | [] => .error .unread
    | .blockEntry :: ts =>
      d.nodeUnless [.blockEntry, .blockEnd] (.node true false) (.blockSequenceEntry :: goals) ts
    | .blockEnd :: ts => d.emit .sequenceEnd goals ts
    | _ => .error .misplaced
  | .unindentedEntry, goals =>
    match d.tokens with
    | [] => .error .unread
    | .blockEntry :: ts =>
      d.nodeUnless [.blockEntry, .key, .value, .blockEnd] (.node true false)
        (.unindentedEntry :: goals) ts
    | ts => d.emit .sequenceEnd goals ts
  | .blockMappingKey, goals =>
    match d.tokens with
    | [] => .error .unread
    | .key :: ts =>
      d.nodeUnless [.key, .value, .blockEnd] (.node true true) (.blockMappingValue :: goals) ts
    | .blockEnd :: ts => d.emit .mappingEnd goals ts
    | _ => .error .misplaced
  | .blockMappingValue, goals =>
    match d.tokens with
    | [] => .error .unread
    | .value :: ts =>
      d.nodeUnless [.key, .value, .blockEnd] (.node true true) (.blockMappingKey :: goals) ts
    | ts => d.emit emptyScalar (.blockMappingKey :: goals) ts
  | .flowSequenceEntry first, goals => d.flowSequenceEntry first goals
  | .flowPairKey, goals =>
    match d.tokens with
    | [] => .error .unread
    | _ :: ts =>
      d.nodeUnless [.value, .flowEntry, .flowSequenceEnd] (.node false false)
        (.flowPairValue :: goals) ts
  | .flowPairValue, goals =>
    match d.tokens with
    | [] => .error .unread
    | .value :: ts =>
      d.nodeUnless [.flowEntry, .flowSequenceEnd] (.node false false) (.flowPairEnd :: goals) ts
    | ts => d.emit emptyScalar (.flowPairEnd :: goals) ts
  | .flowPairEnd, goals =>
    match d.tokens with
    | [] => .error .unread
    | ts => d.emit .mappingEnd (.flowSequenceEntry false :: goals) ts
  | .flowMappingKey first, goals => d.flowMappingKey first goals
  | .flowMappingValue, goals =>
    match d.tokens with
    | [] => .error .unread
    | .value :: ts =>
      d.nodeUnless [.flowEntry, .flowMappingEnd] (.node false false)
        (.flowMappingKey false :: goals) ts
    | ts => d.emit emptyScalar (.flowMappingKey false :: goals) ts
  | .flowMappingNoValue, goals =>
    match d.tokens with
    | [] => .error .unread
    | ts => d.emit emptyScalar (.flowMappingKey false :: goals) ts

/-- Works on all goals, given the events derived so far, last first. A token that cannot be read
counts with the fault that stopped the reading. -/
def run (unread : Fault) : Nat → List Event → Derivation → Reading Event
  | 0, out, _ => ⟨out.reverse, some unread⟩
  | fuel + 1, out, d =>
    match d.goals with
    | [] => ⟨out.reverse, none⟩
    | goal :: goals =>
      match d.step goal goals with
      | .ok (events, d) => run unread fuel (events.reverse ++ out) d
      | .error .misplaced => ⟨out.reverse, some .grammar⟩
      | .error .unread => ⟨out.reverse, some unread⟩

end Derivation

/-- The events that tokens spell out. At most four goals in a row leave the tokens as they are,
which bounds the number of steps. -/
def events (tokens : Reading Token) : Reading Event :=
  (Derivation.mk [] [.streamStart] tokens.items).run (tokens.fault.getD .token)
    (8 * tokens.items.length + 16) []

end ViewHierarchy.Yaml
