import ViewHierarchy.Proofs.Text.LowerCase
import ViewHierarchy.Proofs.View.Shortening
import ViewHierarchy.View.Root

/-! Settings read key by key. What stands under a key of the document is used or ignored whatever
the other keys hold; only an empty text that stands under a key alone comes through as a name. -/
namespace ViewHierarchy
open Yaml (Value)

namespace Yaml.Value

variable {key other : String} {x : Value} {entries : List (Value × Value)}

/-- The mapping with a value put under a key; the last of equal keys counts. -/
def put (key : String) (x : Value) (entries : List (Value × Value)) : Value :=
  .mapping (entries ++ [(.text key, x)])

/-- The document with one of its keys alone. -/
def only (key : String) (v : Value) : Value :=
  match v.lookup? key with
  | some x => put key x []
  | none => .mapping []

theorem lookup?_put : (put key x entries).lookup? key = some x := by
  simp [put, lookup?, isText]

theorem lookup?_put_ne (h : other ≠ key) :
    (put key x entries).lookup? other = (mapping entries).lookup? other := by
  simp [put, lookup?, isText, Ne.symm h]

theorem lookup?_only (key : String) (v : Value) : (v.only key).lookup? key = v.lookup? key := by
  cases h : v.lookup? key with
  | none =>
    rw [only, h]
    rfl
  | some x =>
    rw [only, h]
    exact lookup?_put

end Yaml.Value

namespace Settings

variable {key s : String} {value : Option Value} {names more : List String}

/-- The keys under which names or patterns are listed. -/
def listKeys : List String := ["extra_container_types", "reserved_names", "root_name_patterns"]

/-- A text alone counts whatever it is, and of a list the texts that are not empty. -/
theorem mem_textList_iff : s ∈ textList value ↔ value = some (.text s) ∨
    s ≠ "" ∧ ∃ items, value = some (.sequence items) ∧ Value.text s ∈ items := by
  unfold textList
  split
  · next t => simp [eq_comm]
  · next items =>
    rw [List.mem_filterMap]
    constructor
    · rintro ⟨item, hitem, hs⟩
      split at hs
      · split at hs
        · cases hs
        · next hne =>
          cases hs
          exact .inr ⟨hne, items, rfl, hitem⟩
      · cases hs
    · rintro (h | ⟨hne, items', h, hitem⟩)
      · cases h
      · cases h
        exact ⟨.text s, hitem, if_neg hne⟩
  · next htext hlist =>
    refine iff_of_false List.not_mem_nil ?_
    rintro (rfl | ⟨-, items, rfl, -⟩)
    · exact htext s rfl
    · exact hlist items rfl

/-- Only an empty text that stands alone comes through. -/
theorem forall_mem_textList_iff : (∀ s ∈ textList value, s ≠ "") ↔ value ≠ some (.text "") := by
  constructor
  · intro h hvalue
    exact h "" (mem_textList_iff.2 (.inl hvalue)) rfl
  · rintro h s hs rfl
    rcases mem_textList_iff.1 hs with hvalue | ⟨hne, -⟩
    · exact h hvalue
    · exact hne rfl

theorem textList_singleton (h : s ≠ "") :
    textList (some (.sequence [.text s])) = textList (some (.text s)) := by
  simp [textList, h]

theorem mem_addNames : s ∈ addNames names more ↔ s ∈ names ∨ s ∈ more := by
  rw [addNames, List.mem_eraseDups, List.mem_append]

theorem forall_mem_addNames_iff (h : names.all (· != "") = true) :
    (∀ s ∈ addNames names (textList value), s ≠ "") ↔ value ≠ some (.text "") := by
  rw [← forall_mem_textList_iff]
  constructor
  · intro hall s hs
    exact hall s (mem_addNames.2 (.inr hs))
  · intro hmore s hs
    rcases mem_addNames.1 hs with hs | hs
    · exact bne_iff_ne.1 (List.all_eq_true.1 h s hs)
    · exact hmore s hs

theorem forall_mem_rootPatterns_iff (v : Value) : (∀ s ∈ (ofValue v).rootPatterns, s ≠ "") ↔
    v.lookup? "root_name_patterns" ≠ some (.text "") := by
  have hdefault : default.rootPatterns.all (· != "") = true := by decide
  rw [← forall_mem_textList_iff, ofValue]
  cases textList (v.lookup? "root_name_patterns") with
  | nil =>
    exact iff_of_true (fun s hs => bne_iff_ne.1 (List.all_eq_true.1 hdefault s hs))
      (List.forall_mem_nil _)
  | cons p patterns =>
    rw [List.isEmpty_cons, if_neg Bool.false_ne_true, List.forall_mem_map]
    refine forall₂_congr fun s _ => not_congr ?_
    rw [String.ofList_eq_empty_iff, Text.lower_eq_nil_iff, String.toList_eq_nil_iff]

theorem rootPatterns_ne_nil (v : Value) : (ofValue v).rootPatterns ≠ [] := by
  rw [ofValue]
  cases textList (v.lookup? "root_name_patterns") with
  | nil => exact List.cons_ne_nil _ _
  | cons p patterns => exact List.cons_ne_nil _ _

/-- The settings are put together from those of each key alone. -/
theorem ofValue_only (v : Value) : ofValue v =
    { containerTypes := (ofValue (v.only "extra_container_types")).containerTypes
      reservedNames := (ofValue (v.only "reserved_names")).reservedNames
      rootPatterns := (ofValue (v.only "root_name_patterns")).rootPatterns
      maxPropLength := (ofValue (v.only "max_prop_length")).maxPropLength
      recursionMarker := default.recursionMarker } := by
  simp only [ofValue, Value.lookup?_only]

/-- The texts that a list key decides on are nonempty unless it holds an empty text alone. -/
theorem exists_texts_iff (hkey : key ∈ listKeys) : ∃ texts : Settings → List String,
    ∀ v, (∀ s ∈ texts (ofValue v), s ≠ "") ↔ v.lookup? key ≠ some (.text "") := by
  simp only [listKeys, List.mem_cons, List.not_mem_nil, or_false] at hkey
  rcases hkey with rfl | rfl | rfl
  · exact ⟨containerTypes, fun _ => forall_mem_addNames_iff (by decide)⟩
  · exact ⟨reservedNames, fun _ => forall_mem_addNames_iff (by decide)⟩
  · exact ⟨rootPatterns, forall_mem_rootPatterns_iff⟩

theorem forall_mem_texts_iff (v : Value) :
    (∀ s ∈ (ofValue v).containerTypes ++ (ofValue v).reservedNames ++ (ofValue v).rootPatterns,
        s ≠ "") ↔ ∀ key ∈ listKeys, v.lookup? key ≠ some (.text "") := by
  have hcontainers : (∀ s ∈ (ofValue v).containerTypes, s ≠ "") ↔ _ :=
    forall_mem_addNames_iff (by decide)
  have hreserved : (∀ s ∈ (ofValue v).reservedNames, s ≠ "") ↔ _ :=
    forall_mem_addNames_iff (by decide)
  rw [List.forall_mem_append, List.forall_mem_append, hcontainers, hreserved,
    forall_mem_rootPatterns_iff]
  simp [listKeys, and_assoc]

/-- A text alone under a list key does what it does as the only item of a list, unless it is
empty. -/
theorem ofValue_put_iff (hkey : key ∈ listKeys) (s : String) (entries : List (Value × Value)) :
    ofValue (.put key (.text s) entries) = ofValue (.put key (.sequence [.text s]) entries) ↔
      s ≠ "" := by
  constructor
  · rintro heq rfl
    obtain ⟨texts, htexts⟩ := exists_texts_iff hkey
    have halone := htexts (.put key (.text "") entries)
    have hlist := htexts (.put key (.sequence [.text ""]) entries)
    rw [Value.lookup?_put] at halone hlist
    rw [heq] at halone
    exact halone.1 (hlist.2 (by simp)) rfl
  · intro hne
    have hlists : ∀ other ∈ listKeys,
        textList ((Value.put key (.text s) entries).lookup? other) =
          textList ((Value.put key (.sequence [.text s]) entries).lookup? other) := by
      intro other _
      by_cases h : other = key
      · subst h
        rw [Value.lookup?_put, Value.lookup?_put, textList_singleton hne]
      · rw [Value.lookup?_put_ne h, Value.lookup?_put_ne h]
    have hlimit : "max_prop_length" ≠ key := by
      rintro rfl
      revert hkey
      decide
    simp only [listKeys, List.forall_mem_cons] at hlists
    simp only [ofValue, hlists, Value.lookup?_put_ne hlimit]

/-- Whatever a document holds, the settings have the default names, a pattern and a limit that
leaves room for the ellipsis, and each key gives what it gives alone. Their texts are nonempty just
if no list key holds an empty text alone; and a text alone under a list key does what it does as the
only item of a list just if it is not empty. -/
theorem ofValue_keywise (v : Value) :
    (∀ name ∈ default.containerTypes, name ∈ (ofValue v).containerTypes) ∧
      (∀ name ∈ default.reservedNames, name ∈ (ofValue v).reservedNames) ∧
      (ofValue v).rootPatterns ≠ [] ∧ 4 ≤ (ofValue v).maxPropLength ∧
      ofValue v =
        { containerTypes := (ofValue (v.only "extra_container_types")).containerTypes
          reservedNames := (ofValue (v.only "reserved_names")).reservedNames
          rootPatterns := (ofValue (v.only "root_name_patterns")).rootPatterns
          maxPropLength := (ofValue (v.only "max_prop_length")).maxPropLength
          recursionMarker := default.recursionMarker } ∧
      ((∀ s ∈ (ofValue v).containerTypes ++ (ofValue v).reservedNames ++ (ofValue v).rootPatterns,
          s ≠ "") ↔ ∀ key ∈ listKeys, v.lookup? key ≠ some (.text "")) ∧
      ∀ key ∈ listKeys, ∀ s entries,
        ofValue (.put key (.text s) entries) = ofValue (.put key (.sequence [.text s]) entries) ↔
          s ≠ "" := by
  refine ⟨?_, ?_, rootPatterns_ne_nil v, leastLimit_le_limitOf _, ofValue_only v,
    forall_mem_texts_iff v, fun key hkey => ofValue_put_iff hkey⟩
  · exact fun name hname => mem_addNames.2 (.inl hname)
  · exact fun name hname => mem_addNames.2 (.inl hname)

/-- A document with a mixed list and a limit that is none. -/
def mixedDocument : Value :=
  .mapping [(.text "reserved_names", .sequence [.text "", .bool true, .text "Chip"]),
    (.text "max_prop_length", .bool true)]

theorem ofValue_keywise_mixedDocument :
    "Grid" ∈ (ofValue mixedDocument).containerTypes ∧
      "ForEach" ∈ (ofValue mixedDocument).reservedNames ∧
      "Chip" ∈ (ofValue mixedDocument).reservedNames ∧
      "" ∉ (ofValue mixedDocument).reservedNames ∧
      ofValue (.put "reserved_names" (.text "Chip") []) =
        ofValue (.put "reserved_names" (.sequence [.text "Chip"]) []) := by
  obtain ⟨hcontainers, hreserved, -, -, -, htexts, halone⟩ := ofValue_keywise mixedDocument
  have hkeys : ∀ key ∈ listKeys, mixedDocument.lookup? key ≠ some (.text "") := by
    simp [listKeys, mixedDocument, Value.lookup?, Value.isText]
  have hchip : Value.text "Chip" ∈ [Value.text "", .bool true, .text "Chip"] := by simp
  refine ⟨hcontainers _ (by decide), hreserved _ (by decide), ?_, ?_,
    (halone "reserved_names" (by decide) "Chip" []).2 (by decide)⟩
  · exact mem_addNames.2 (.inr (mem_textList_iff.2 (.inr ⟨by decide, _, rfl, hchip⟩)))
  · intro hempty
    exact htexts.2 hkeys "" (List.mem_append_left _ (List.mem_append_right _ hempty)) rfl

theorem exists_read {α : Type} {bytes : List UInt8} {f : Settings → α} {x : α}
    (h : (Settings.read bytes).toOption.map f = some x) :
    ∃ st, Settings.read bytes = .ok st ∧ f st = x := by
  cases hread : Settings.read bytes with
  | error fault =>
    rw [hread] at h
    cases h
  | ok st =>
    rw [hread] at h
    exact ⟨st, rfl, Option.some.inj h⟩

/-- A settings file with an empty text under a list key. -/
def emptyTextFile : List UInt8 := "root_name_patterns: \"\"".toUTF8.toList

/-- And one with a list of it. -/
def emptyItemFile : List UInt8 := "root_name_patterns: [\"\"]".toUTF8.toList

/-- The empty text becomes a pattern, and every name holds it; as an item of a list it is ignored.
-/
theorem emptyText_is_pattern : ∃ alone item, Settings.read emptyTextFile = .ok alone ∧
    Settings.read emptyItemFile = .ok item ∧ "" ∈ alone.rootPatterns ∧
    item.rootPatterns = default.rootPatterns ∧ alone.rootPatterns ≠ item.rootPatterns ∧
    ∀ name, alone.isLikelyRoot name = true := by
  have htext : (Settings.read emptyTextFile).toOption.map rootPatterns = some [""] := by
    decide +kernel
  have hitem : (Settings.read emptyItemFile).toOption.map rootPatterns =
      some default.rootPatterns := by
    decide +kernel
  obtain ⟨alone, halone, hpatterns⟩ := exists_read htext
  obtain ⟨item, hok, hdefault⟩ := exists_read hitem
  refine ⟨alone, item, halone, hok, ?_, hdefault, ?_, fun name => ?_⟩
  · rw [hpatterns]
    exact List.mem_singleton.2 rfl
  · rw [hpatterns, hdefault]
    decide
  · rw [isLikelyRoot, hpatterns, List.any_cons, Bool.or_eq_true]
    exact .inl ((Text.occursIn_iff _ _).2 List.nil_infix)

end Settings

end ViewHierarchy
