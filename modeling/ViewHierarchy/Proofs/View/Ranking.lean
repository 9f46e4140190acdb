import ViewHierarchy.Proofs.View.Configuring

/-! The ranking of names as roots. Names that hold a pattern come first and each group is in order,
whatever order the names were in; the patterns are found letter by letter, case aside, if they are
such that lower-casing finds them. -/
namespace ViewHierarchy
open Text (CaseSafe HoldsInSomeCase lower)
open Yaml (Value)

variable {st : Settings} {v : Value} {a b name : String} {names other patterns : List String}
  {likely : String → Prop}

/-- No name stands before a likely one unless it is likely itself, and among the likely names, as
among the others, each is less than those after it. -/
def IsRanked (likely : String → Prop) (ranked : List String) : Prop :=
  ranked.Pairwise fun a b => (likely b → likely a) ∧ ((likely a ↔ likely b) → a < b)

namespace Settings

/-- One name may stand before another if it is likely and the other is not, or if they are alike and
it is no greater. -/
theorem rootLe_iff : st.rootLe a b = true ↔
    st.isLikelyRoot a = true ∧ st.isLikelyRoot b = false ∨
      st.isLikelyRoot a = st.isLikelyRoot b ∧ a ≤ b := by
  cases ha : st.isLikelyRoot a <;> cases hb : st.isLikelyRoot b <;> simp [rootLe, ha, hb]

theorem rootLe_trans (a b c : String) (hab : st.rootLe a b = true) (hbc : st.rootLe b c = true) :
    st.rootLe a c = true := by
  rw [rootLe_iff] at hab hbc ⊢
  rcases hab with ⟨ha, hb⟩ | ⟨hab, hle⟩
  · rcases hbc with ⟨hb', -⟩ | ⟨hbc, -⟩
    · cases hb.symm.trans hb'
    · exact .inl ⟨ha, hbc.symm.trans hb⟩
  · rcases hbc with ⟨hb, hc⟩ | ⟨hbc, hle'⟩
    · exact .inl ⟨hab.trans hb, hc⟩
    · exact .inr ⟨hab.trans hbc, String.le_trans hle hle'⟩

theorem rootLe_total (a b : String) : (st.rootLe a b || st.rootLe b a) = true := by
  rw [Bool.or_eq_true, rootLe_iff, rootLe_iff]
  have hle := String.le_total a b
  cases st.isLikelyRoot a <;> cases st.isLikelyRoot b <;> simp [hle]

theorem rootLe_antisymm (hab : st.rootLe a b = true) (hba : st.rootLe b a = true) : a = b := by
  rw [rootLe_iff] at hab hba
  rcases hab with ⟨ha, hb⟩ | ⟨hsame, hle⟩
  · rcases hba with ⟨hb', -⟩ | ⟨hsame, -⟩
    · cases hb.symm.trans hb'
    · cases hb.symm.trans (hsame.trans ha)
  · rcases hba with ⟨hb, ha⟩ | ⟨-, hle'⟩
    · cases ha.symm.trans (hsame.trans hb)
    · exact String.le_antisymm hle hle'

end Settings

theorem rootCandidates_pairwise (st : Settings) (names : List String) :
    (rootCandidates st names).Pairwise fun a b => st.rootLe a b = true :=
  List.pairwise_mergeSort Settings.rootLe_trans Settings.rootLe_total names

theorem rootCandidates_perm (st : Settings) (names : List String) :
    (rootCandidates st names).Perm names :=
  List.mergeSort_perm names _

/-- The order in which the names were declared does not count. -/
theorem rootCandidates_eq_of_perm (h : other.Perm names) :
    rootCandidates st other = rootCandidates st names := by
  have hperm : (rootCandidates st other).Perm (rootCandidates st names) :=
    ((rootCandidates_perm st other).trans h).trans (rootCandidates_perm st names).symm
  exact hperm.eq_of_pairwise (fun _ _ _ _ => Settings.rootLe_antisymm)
    (rootCandidates_pairwise st other) (rootCandidates_pairwise st names)

theorem rootCandidates_pair (h : st.rootLe a b = true) : rootCandidates st [a, b] = [a, b] :=
  List.mergeSort_of_pairwise (List.pairwise_pair.2 h)

theorem rootCandidates_isRanked (hlikely : ∀ name, st.isLikelyRoot name = true ↔ likely name)
    (h : names.Nodup) : IsRanked likely (rootCandidates st names) := by
  have hnodup : (rootCandidates st names).Nodup := (rootCandidates_perm st names).nodup_iff.2 h
  refine ((rootCandidates_pairwise st names).and hnodup).imp fun {a b} hab => ?_
  obtain ⟨hle, hne⟩ := hab
  rw [← hlikely, ← hlikely]
  rcases Settings.rootLe_iff.1 hle with ⟨ha, hb⟩ | ⟨hsame, hle⟩
  · rw [ha, hb]
    exact ⟨fun _ => rfl, fun h => absurd (h.1 rfl) Bool.false_ne_true⟩
  · rw [hsame]
    exact ⟨id, fun _ => Std.lt_of_le_of_ne hle hne⟩

theorem isRanked_pair (h : IsRanked likely [a, b]) (hb : likely b) : likely a :=
  (List.pairwise_pair.1 h).1 hb

/-- The names are ranked by another property only if that is the one the names are sorted by. If a
name has it and is not taken for likely, then that name stands behind the empty one; if a name is
taken for likely and does not have it, then that name stands before all longer ones. -/
theorem forall_isRanked_iff (hempty : st.isLikelyRoot "" = false) (hnot : ¬likely "")
    (hlonger : ∀ name, st.isLikelyRoot name = true → ∃ longer : String,
      name.toList <+: longer.toList ∧ name ≠ longer ∧ likely longer) :
    (∀ names : List String, names.Nodup → IsRanked likely (rootCandidates st names)) ↔
      ∀ name, st.isLikelyRoot name = true ↔ likely name := by
  refine ⟨fun hranked name => ?_, fun hlikely names => rootCandidates_isRanked hlikely⟩
  constructor
  · intro hfound
    obtain ⟨longer, hprefix, hne, hlikely⟩ := hlonger name hfound
    have hle : st.rootLe name longer = true := by
      rw [Settings.rootLe_iff]
      cases hbehind : st.isLikelyRoot longer with
      | true => exact .inr ⟨hfound, hprefix.le⟩
      | false => exact .inl ⟨hfound, rfl⟩
    have hpair := hranked [name, longer] (by simpa using hne)
    rw [rootCandidates_pair hle] at hpair
    exact isRanked_pair hpair hlikely
  · intro hlikely
    rw [← Bool.not_eq_false]
    intro hmissed
    have hne : "" ≠ name := by
      rintro rfl
      exact hnot hlikely
    have hle : st.rootLe "" name = true := by
      rw [Settings.rootLe_iff, hempty, hmissed]
      exact .inr ⟨rfl, List.nil_prefix.le⟩
    have hpair := hranked ["", name] (by simpa using hne)
    rw [rootCandidates_pair hle] at hpair
    exact hnot (isRanked_pair hpair hlikely)

namespace Settings

/-- The patterns that a list of them configures: those of the list, or the default ones. -/
def configured (patterns : List String) : List String :=
  if patterns = [] then default.rootPatterns else patterns

theorem ne_empty_of_mem_configured (hne : ∀ p ∈ patterns, p ≠ "") {p : String}
    (h : p ∈ configured patterns) : p ≠ "" := by
  rw [configured] at h
  split at h
  · rintro rfl
    revert h
    decide
  · exact hne p h

theorem textList_map_text (hne : ∀ p ∈ patterns, p ≠ "") :
    textList (some (.sequence (patterns.map .text))) = patterns := by
  rw [textList, List.filterMap_map]
  conv_rhs => rw [← List.filterMap_some (l := patterns)]
  exact List.filterMap_congr fun p hp => if_neg (hne p hp)

/-- The default patterns are in lower case as they stand. -/
theorem rootPatterns_ofValue
    (hv : v.lookup? "root_name_patterns" = some (.sequence (patterns.map .text)))
    (hne : ∀ p ∈ patterns, p ≠ "") : (ofValue v).rootPatterns =
      (configured patterns).map fun p => String.ofList (lower p.toList) := by
  have hdefault : default.rootPatterns =
      default.rootPatterns.map fun p => String.ofList (lower p.toList) := by
    decide +kernel
  rw [ofValue, hv, textList_map_text hne, configured]
  cases patterns with
  | nil => exact hdefault
  | cons p rest => rfl

theorem isLikelyRoot_ofValue
    (hv : v.lookup? "root_name_patterns" = some (.sequence (patterns.map .text)))
    (hne : ∀ p ∈ patterns, p ≠ "") (name : String) : (ofValue v).isLikelyRoot name = true ↔
      ∃ p ∈ configured patterns, lower p.toList <:+: lower name.toList := by
  rw [isLikelyRoot, rootPatterns_ofValue hv hne, List.any_map, List.any_eq_true]
  simp [Text.occursIn_iff]

/-- Whether a name holds the letters of one of the configured patterns, case aside. -/
def HoldsPattern (patterns : List String) (name : String) : Prop :=
  ∃ p ∈ configured patterns, HoldsInSomeCase p.toList name.toList

theorem isLikelyRoot_empty
    (hv : v.lookup? "root_name_patterns" = some (.sequence (patterns.map .text)))
    (hne : ∀ p ∈ patterns, p ≠ "") : (ofValue v).isLikelyRoot "" = false := by
  rw [← Bool.not_eq_true, isLikelyRoot_ofValue hv hne]
  rintro ⟨p, hp, hfound⟩
  have hnil : lower p.toList = [] := List.infix_nil.1 hfound
  rw [Text.lower_eq_nil_iff, String.toList_eq_nil_iff] at hnil
  exact ne_empty_of_mem_configured hne hp hnil

theorem not_holdsPattern_empty (hne : ∀ p ∈ patterns, p ≠ "") : ¬HoldsPattern patterns "" := by
  rintro ⟨p, hp, hheld⟩
  have hnil : Text.fold p.toList = [] := List.infix_nil.1 hheld.fold_isInfix
  rw [← Text.map_respell_lower, List.map_eq_nil_iff, Text.lower_eq_nil_iff,
    String.toList_eq_nil_iff] at hnil
  exact ne_empty_of_mem_configured hne hp hnil

/-- A name that is taken for likely is followed by one that holds a pattern as it is written. -/
theorem exists_longer (hv : v.lookup? "root_name_patterns" = some (.sequence (patterns.map .text)))
    (hne : ∀ p ∈ patterns, p ≠ "") (h : (ofValue v).isLikelyRoot name = true) :
    ∃ longer : String, name.toList <+: longer.toList ∧ name ≠ longer ∧
      HoldsPattern patterns longer := by
  obtain ⟨p, hp, -⟩ := (isLikelyRoot_ofValue hv hne name).1 h
  refine ⟨name ++ p, ?_, ?_, p, hp, p.toList, ?_, rfl⟩
  · rw [String.toList_append]
    exact List.prefix_append _ _
  · intro heq
    have hnil : p.toList = [] := by
      rw [String.ext_iff, String.toList_append] at heq
      exact List.self_eq_append_right.1 heq
    exact ne_empty_of_mem_configured hne hp (String.toList_eq_nil_iff.1 hnil)
  · rw [String.toList_append]
    exact (List.suffix_append _ _).isInfix

end Settings

open Settings (configured HoldsPattern)

/-- The names are ranked by the letters of the patterns, case aside, just if lower-casing finds the
patterns where these letters stand. -/
theorem forall_isRanked_holdsPattern_iff
    (hv : v.lookup? "root_name_patterns" = some (.sequence (patterns.map .text)))
    (hne : ∀ p ∈ patterns, p ≠ "") :
    (∀ names : List String, names.Nodup →
        IsRanked (HoldsPattern patterns) (rootCandidates (.ofValue v) names)) ↔
      ∀ name : String, (∃ p ∈ configured patterns, lower p.toList <:+: lower name.toList) ↔
        HoldsPattern patterns name := by
  rw [forall_isRanked_iff (Settings.isLikelyRoot_empty hv hne)
    (Settings.not_holdsPattern_empty hne) fun _ => Settings.exists_longer hv hne]
  simp only [Settings.isLikelyRoot_ofValue hv hne]

/-- Each name stands in the ranking once, and the ranking does not depend on the order in which the
names were declared: first come those that hold a pattern when both are lower-cased. These are the
names that hold the letters of a pattern, case aside, if lower-casing is safe for the patterns, and
for a single pattern only then. -/
theorem rootCandidates_ranked
    (hv : v.lookup? "root_name_patterns" = some (.sequence (patterns.map .text)))
    (hne : ∀ p ∈ patterns, p ≠ "") :
    (∀ names : List String, names.Nodup →
        (rootCandidates (.ofValue v) names).Perm names ∧
          (∀ other : List String, other.Perm names →
            rootCandidates (.ofValue v) other = rootCandidates (.ofValue v) names) ∧
          IsRanked (fun name => ∃ p ∈ configured patterns, lower p.toList <:+: lower name.toList)
            (rootCandidates (.ofValue v) names)) ∧
      ((∀ p ∈ configured patterns, CaseSafe p.toList) → ∀ names : List String, names.Nodup →
        IsRanked (HoldsPattern patterns) (rootCandidates (.ofValue v) names)) ∧
      ∀ p, configured patterns = [p] →
        ((∀ names : List String, names.Nodup →
            IsRanked (HoldsPattern patterns) (rootCandidates (.ofValue v) names)) ↔
          CaseSafe p.toList) := by
  refine ⟨fun names h => ⟨rootCandidates_perm _ names, fun other => rootCandidates_eq_of_perm,
    rootCandidates_isRanked (Settings.isLikelyRoot_ofValue hv hne) h⟩, fun hsafe => ?_,
    fun p hp => ?_⟩
  · rw [forall_isRanked_holdsPattern_iff hv hne]
    intro name
    exact exists_congr fun p => and_congr_right fun hp =>
      (Text.lower_isInfix_iff p.toList).2 (hsafe p hp) name.toList
  · rw [forall_isRanked_holdsPattern_iff hv hne, ← Text.lower_isInfix_iff]
    simp only [HoldsPattern, hp, List.mem_singleton, exists_eq_left]
    constructor
    · intro h s
      have hs := h (String.ofList s)
      rwa [String.toList_ofList] at hs
    · exact fun h name => h name.toList

/-- A document with a single pattern. -/
def screenDocument : Value :=
  .mapping [(.text "root_name_patterns", .sequence [.text "Screen"])]

theorem rootCandidates_ranked_screenDocument :
    IsRanked (HoldsPattern ["Screen"])
      (rootCandidates (.ofValue screenDocument) ["Row", "LOGINSCREEN", "HomeScreen"]) := by
  have hv : screenDocument.lookup? "root_name_patterns" =
      some (.sequence (["Screen"].map .text)) := by
    simp [screenDocument, Value.lookup?, Value.isText]
  have hsigma : ("Screen".toList.all fun c => Text.isSigma c == false) = true := by decide
  have hsafe : CaseSafe "Screen".toList :=
    { sigma := fun c hc => beq_iff_eq.1 (List.all_eq_true.1 hsigma c hc)
      head := by decide +kernel
      last := by decide +kernel }
  have hranked := (rootCandidates_ranked hv (by decide)).2.1
  refine hranked (fun p hp => ?_) _ (by decide)
  cases List.mem_singleton.1 hp
  exact hsafe

/-- A settings file with a pattern that ends in a sigma. -/
def sigmaFile : List UInt8 := "root_name_patterns: [ΟΔΟΣ]".toUTF8.toList

/-- The last letter of the pattern becomes a final sigma, and that of a longer name does not: a name
that holds the pattern as it is written stands behind one that holds it in no case. -/
theorem sigmaPattern_missed : ∃ st, Settings.read sigmaFile = .ok st ∧
    rootCandidates st ["AView", "ΟΔΟΣView"] = ["AView", "ΟΔΟΣView"] ∧
    "ΟΔΟΣ".toList <:+: "ΟΔΟΣView".toList ∧
    ¬HoldsInSomeCase "ΟΔΟΣ".toList "AView".toList := by
  have hread : (Settings.read sigmaFile).toOption.map Settings.rootPatterns = some ["οδος"] := by
    decide +kernel
  obtain ⟨st, hst, hpatterns⟩ := Settings.exists_read hread
  refine ⟨st, hst, rootCandidates_pair ?_, by decide, fun hheld => ?_⟩
  · rw [Settings.rootLe, Settings.isLikelyRoot, Settings.isLikelyRoot, hpatterns]
    decide +kernel
  · refine absurd ((Text.occursIn_iff _ _).2 hheld.fold_isInfix) ?_
    decide +kernel

end ViewHierarchy
