import ViewHierarchy.Proofs.Text.Spacing
import ViewHierarchy.View.Property
import ViewHierarchy.View.SettingsFile

/-! Values on one line, shortened where they are longer than a limit. Every configured limit leaves
room for the ellipsis, so a value that was shortened is not shortened again. -/
namespace ViewHierarchy
open Text

variable {limit : Int} {s v : List Char}

theorem Settings.leastLimit_le_limitOf (value : Option Yaml.Value) :
    leastLimit ≤ limitOf value := by
  unfold limitOf
  split
  · split
    · assumption
    · decide
  · decide

theorem normalizeValue_fits (h : ((collapse v).length : Int) ≤ limit) :
    normalizeValue limit v = collapse v :=
  if_neg (Int.not_lt.2 h)

/-- A value on one line is left as it is if it fits. -/
theorem normalizeValue_eq_self (hs : IsSpaced s) (hend : EndsKept s)
    (h : (s.length : Int) ≤ limit) : normalizeValue limit s = s := by
  have hline : collapse s = s := collapse_eq_self_iff.2 ⟨hs, hend⟩
  rw [normalizeValue_fits (by rwa [hline]), hline]

/-- A value is its line, or the beginning of it that is left with the ellipsis behind it. -/
theorem normalizeValue_cases (hlimit : Settings.leastLimit ≤ limit) (v : List Char) :
    ((collapse v).length : Int) ≤ limit ∧ normalizeValue limit v = collapse v ∨
      limit < (collapse v).length ∧ ∃ p, p <+: collapse v ∧ (p.length : Int) = limit - 3 ∧
        normalizeValue limit v = p ++ ['…'] := by
  rw [Settings.leastLimit] at hlimit
  by_cases hfits : ((collapse v).length : Int) ≤ limit
  · exact .inl ⟨hfits, normalizeValue_fits hfits⟩
  · have hlonger := Int.not_le.1 hfits
    have hcut : cutLength (limit - 3) (collapse v).length = (limit - 3).toNat :=
      if_neg (by omega)
    refine .inr ⟨hlonger, _, List.take_prefix (limit - 3).toNat _, ?_, ?_⟩
    · rw [List.length_take]
      omega
    · rw [← hcut]
      exact if_pos hlonger

theorem normalizeValue_spaced (hlimit : Settings.leastLimit ≤ limit) (v : List Char) :
    ((normalizeValue limit v).length : Int) ≤ limit ∧ IsSpaced (normalizeValue limit v) ∧
      EndsKept (normalizeValue limit v) := by
  obtain ⟨hspaced, hend⟩ := isSpaced_collapse v
  rcases normalizeValue_cases hlimit v with ⟨hfits, hv⟩ | ⟨-, p, hp, hlen, hv⟩
  · rw [hv]
    exact ⟨hfits, hspaced, hend⟩
  · rw [hv]
    have hellipsis : EndsKept ['…'] := stops_cons (by decide) []
    refine ⟨?_, (hspaced.of_prefix hp).append_kept (by decide),
      hellipsis.append (List.cons_ne_nil _ _) p⟩
    rw [List.length_append, List.length_singleton]
    omega

/-- Whatever document the settings come from, a value is no longer than their limit, its white space
is single spaces and none at the start, and shortening it again changes nothing. It is the line of
its words or, if that is too long, the line up to three characters before the limit and the
ellipsis. -/
theorem normalizeValue_stable (document : Yaml.Value) (v : List Char) :
    let limit := (Settings.ofValue document).maxPropLength
    let line := normalizeValue limit v
    (line.length : Int) ≤ limit ∧ IsSpaced line ∧ normalizeValue limit line = line ∧
      (((collapse v).length : Int) ≤ limit ∧ line = collapse v ∨
        limit < (collapse v).length ∧ ∃ p, p <+: collapse v ∧ (p.length : Int) = limit - 3 ∧
          line = p ++ ['…']) := by
  intro limit line
  have hlimit : Settings.leastLimit ≤ limit := Settings.leastLimit_le_limitOf _
  obtain ⟨hlen, hspaced, hend⟩ := normalizeValue_spaced hlimit v
  exact ⟨hlen, hspaced, normalizeValue_eq_self hspaced hend hlen, normalizeValue_cases hlimit v⟩

-- The line is cut right behind a space, and stays as it is.
example : normalizeValue 8 "  ab\n\tc  defg".toList = "ab c …".toList ∧
    normalizeValue 8 "ab c …".toList = "ab c …".toList := by decide

end ViewHierarchy
