/-! Character classes as unions of half-open intervals of code points. -/
namespace ViewHierarchy.Text

/-- Membership in a union of intervals given in ascending order, upper ends excluded. -/
def inIntervals : List (Nat × Nat) → Nat → Bool
  | [], _ => false
  | (lo, hi) :: rest, n => decide (lo ≤ n) && (decide (n < hi) || inIntervals rest n)

theorem inIntervals_of_mem {lo hi n : Nat} (rest : List (Nat × Nat)) (h : lo ≤ n) (h' : n < hi) :
    inIntervals ((lo, hi) :: rest) n = true := by
  simp only [inIntervals, h, h', decide_true, Bool.true_or, Bool.and_self]

end ViewHierarchy.Text
