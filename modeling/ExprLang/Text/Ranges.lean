/-!
# Code point ranges

A character class of the Unicode standard is given here as a table of closed code point
ranges `lo..hi`, in increasing order. `inRanges n rs` tells whether the code point `n` lies
in one of the ranges of `rs`; `inRanges_iff` says so as membership.
-/

namespace ExprLang.Text

/-- Whether `n` lies in one of the closed ranges `lo..hi`. -/
def inRanges (n : Nat) : List (Nat × Nat) → Bool
  | [] => false
  | (lo, hi) :: rs => (lo ≤ n && n ≤ hi) || inRanges n rs

/-- A code point is in a table exactly when one of its ranges holds it. -/
theorem inRanges_iff (n : Nat) (rs : List (Nat × Nat)) :
    inRanges n rs = true ↔ ∃ r ∈ rs, r.1 ≤ n ∧ n ≤ r.2 := by
  induction rs with
  | nil => simp [inRanges]
  | cons r rs ih =>
    obtain ⟨lo, hi⟩ := r
    simp [inRanges, ih]

end ExprLang.Text
