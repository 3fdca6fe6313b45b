import Mathlib
import ExprLang.Proofs.WholeParts

/-!
# Repeating a string

`s * n` and `n * s` repeat the string `s` as many times as the number `n` counts, for every
allocator the repeated string is reserved from (`times_repeats_exactly`). The count `c` is `0`
for not a number and every value below one, and `⌊n⌋` otherwise, at most `2 ^ 64 - 1`
(`Parts.CountOf`). Both orders give the same outcome: the string written `c` times, whose size
in bytes is `c` times that of `s`, or a refusal as too large to hold. An empty string or a zero
count gives the empty string. A result larger than any allocation (more than `2 ^ 63 - 1`
bytes) is always refused, and a refusal has no other cause than an overflow of the size or the
allocator's refusal of the reservation (`repeatText_cases`).

The string is built by doubling (`replicateText`); `replicateText_eq_join` says it is the
string written `n` times, by the recursion of the doubling itself.
-/

namespace ExprLang

/-- Doubling builds the string written `n` times. -/
theorem replicateText_eq_join (s : String) (n : ℕ) :
    replicateText s n = String.join (List.replicate n s) := by
  fun_induction replicateText s n with
  | case1 => rfl
  | case2 n hn half heven ih =>
    -- an even count is two halves
    have hhalf : half = String.join (List.replicate (n / 2) s) := ih
    have hn2 : n = n / 2 + n / 2 := by omega
    rw [hhalf, ← String.join_append, ← List.replicate_add, ← hn2]
  | case3 n hn half hodd ih =>
    -- an odd count is two halves and one more
    have hhalf : half = String.join (List.replicate (n / 2) s) := ih
    have hn2 : n = n / 2 + n / 2 + 1 := by omega
    rw [hhalf, ← String.join_append, ← List.replicate_add]
    conv => rhs; rw [hn2, List.replicate_succ', String.join_append]
    rw [String.join_cons, String.join_nil, String.append_empty]

/-- The string written `n` times is `n` times as long in bytes. -/
theorem utf8ByteSize_join_replicate (s : String) (n : ℕ) :
    (String.join (List.replicate n s)).utf8ByteSize = s.utf8ByteSize * n := by
  induction n with
  | zero => rfl
  | succ n ih =>
    rw [List.replicate_succ, String.join_cons, String.utf8ByteSize_append, ih]
    ring

/-- The empty string written any number of times is empty. -/
theorem join_replicate_empty (n : ℕ) : String.join (List.replicate n "") = "" := by
  induction n with
  | zero => rfl
  | succ n ih => rw [List.replicate_succ, String.join_cons, ih, String.append_empty]

/-- A repetition, unfolded: an empty string or a zero count gives the empty string; a result
whose size in bytes overflows `countMax` is refused, and so is one that `alloc` does not grant;
otherwise the string is written as many times as the number counts. -/
theorem repeatText_eq (alloc : Allocator) (s : String) (n : Float) :
    repeatText alloc s n =
      if s = "" ∨ (Number.Parts.ofFloat n).toCount = 0 then .ok ""
      else if Number.countMax < s.utf8ByteSize * (Number.Parts.ofFloat n).toCount then
        .error .repeatRefused
      else if alloc.grants (s.utf8ByteSize * (Number.Parts.ofFloat n).toCount) then
        .ok (String.join (List.replicate (Number.Parts.ofFloat n).toCount s))
      else .error .repeatRefused := by
  simp [repeatText, String.isEmpty_iff, replicateText_eq_join]

/-- Every way a repetition ends: the empty string for an empty string or a zero count; a
refusal when the size of the result in bytes overflows `countMax` or the allocator does not
grant it; and otherwise the string written as many times as the number counts. -/
theorem repeatText_cases (alloc : Allocator) (s : String) (n : Float) :
    let c := (Number.Parts.ofFloat n).toCount
    ((s = "" ∨ c = 0) ∧ repeatText alloc s n = .ok "") ∨
    (s ≠ "" ∧ c ≠ 0 ∧
      (Number.countMax < s.utf8ByteSize * c ∨ alloc.grants (s.utf8ByteSize * c) = false) ∧
      repeatText alloc s n = .error .repeatRefused) ∨
    (s ≠ "" ∧ c ≠ 0 ∧ s.utf8ByteSize * c ≤ Number.countMax ∧
      alloc.grants (s.utf8ByteSize * c) = true ∧
      repeatText alloc s n = .ok (String.join (List.replicate c s))) := by
  intro c
  rw [repeatText_eq]
  by_cases hz : s = "" ∨ c = 0
  · exact .inl ⟨hz, if_pos hz⟩
  have hs : s ≠ "" := fun h => hz (.inl h)
  have hc : c ≠ 0 := fun h => hz (.inr h)
  rw [if_neg hz]
  by_cases hover : Number.countMax < s.utf8ByteSize * c
  · exact .inr (.inl ⟨hs, hc, .inl hover, if_pos hover⟩)
  rw [if_neg hover]
  cases hg : alloc.grants (s.utf8ByteSize * c) with
  | false => exact .inr (.inl ⟨hs, hc, .inr rfl, rfl⟩)
  | true => exact .inr (.inr ⟨hs, hc, Nat.le_of_not_lt hover, rfl, rfl⟩)

/-- No string is larger in bytes than `2 ^ 63 - 1`. -/
theorem isizeMax_eq : isizeMax = 9223372036854775807 := by decide

namespace Tree

open Number

theorem applyBinary_string_times (alloc : Allocator) (s : String) (n : Float) :
    applyBinary alloc .times (.string s) (.number n) = Value.string <$> repeatText alloc s n := rfl

theorem applyBinary_times_string (alloc : Allocator) (s : String) (n : Float) :
    applyBinary alloc .times (.number n) (.string s) = Value.string <$> repeatText alloc s n := rfl

/-- String repetition is exact and symmetric, for every allocator. For a string `s` and a
number `n`, let `c` be `0` when `n` is not a number or below one, and `⌊n⌋` otherwise, at most
`2 ^ 64 - 1`. Then `s * n` and `n * s` give the same outcome: `s` written `c` times, of `c`
times the bytes of `s`, or a refusal as too large. An empty string or a zero count gives the
empty string; a result of more than `2 ^ 64 - 1` or `2 ^ 63 - 1` bytes is always refused; and a
refusal comes only from such an overflow or from the allocator refusing the reservation. -/
theorem times_repeats_exactly (alloc : Allocator) (s : String) (n : Float) :
    Parts.CountOf (Parts.ofFloat n) (Parts.ofFloat n).toCount ∧
    applyBinary alloc .times (.string s) (.number n) =
      applyBinary alloc .times (.number n) (.string s) ∧
    let c := (Parts.ofFloat n).toCount
    (applyBinary alloc .times (.string s) (.number n) =
        .ok (.string (String.join (List.replicate c s))) ∨
      applyBinary alloc .times (.string s) (.number n) = .error .repeatRefused) ∧
    (String.join (List.replicate c s)).utf8ByteSize = s.utf8ByteSize * c ∧
    (s = "" ∨ c = 0 → applyBinary alloc .times (.string s) (.number n) = .ok (.string "")) ∧
    (countMax < s.utf8ByteSize * c ∨ 2 ^ 63 - 1 < s.utf8ByteSize * c →
      applyBinary alloc .times (.string s) (.number n) = .error .repeatRefused) ∧
    (applyBinary alloc .times (.string s) (.number n) = .error .repeatRefused →
      s ≠ "" ∧ c ≠ 0 ∧
        (countMax < s.utf8ByteSize * c ∨ alloc.grants (s.utf8ByteSize * c) = false)) := by
  refine ⟨Parts.toCount_countOf _, rfl, ?_⟩
  intro c
  have hsize := utf8ByteSize_join_replicate s c
  rw [applyBinary_string_times]
  rcases repeatText_cases alloc s n with ⟨hz, h⟩ | ⟨hs, hc, hwhy, h⟩ | ⟨hs, hc, -, hg, h⟩
  · -- the empty string, which is also `s` written `c` times, and of no bytes
    have hjoin : String.join (List.replicate c s) = "" := by
      rcases hz with rfl | hz
      · exact join_replicate_empty c
      · rw [show c = 0 from hz, List.replicate_zero, String.join_nil]
    have hzero : s.utf8ByteSize * c = 0 := by rw [← hsize, hjoin]; rfl
    rw [h, hjoin, hzero]
    exact ⟨.inl rfl, rfl, fun _ => rfl, fun hbig => by omega, fun hr => by cases hr⟩
  · rw [h]
    exact ⟨.inr rfl, hsize, fun hz => by tauto, fun _ => rfl, fun _ => ⟨hs, hc, hwhy⟩⟩
  · -- a granted reservation is at most `isizeMax` bytes, within both bounds
    have hgrant : s.utf8ByteSize * c ≤ isizeMax := alloc.grants_le _ hg
    rw [isizeMax_eq] at hgrant
    rw [h]
    exact ⟨.inl rfl, hsize, fun hz => by tauto, fun hbig => by rw [countMax_eq] at hbig; omega,
      fun hr => by cases hr⟩

end Tree

end ExprLang
