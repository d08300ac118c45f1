import Mathlib.Data.List.Basic
import Mathlib.Tactic

/-!
# Binary search

The search for the place where a predicate on positions becomes true, by halving, and the upper
bound of a value in a sorted list.
-/

namespace BinarySearch

variable {α : Type*} {p : ℕ → Bool} {fuel first len : ℕ}

/-- The first position of `[first, first + len)` in `p`, or its end, in at most `fuel` halvings. -/
def partitionPoint (p : ℕ → Bool) : ℕ → ℕ → ℕ → ℕ
  | 0, first, _ => first
  | fuel + 1, first, len =>
    if len = 0 then first
    else if p (first + len / 2) then partitionPoint p fuel first (len / 2)
    else partitionPoint p fuel (first + len / 2 + 1) (len - len / 2 - 1)

/-- Before position `r` nothing is in `p`, and from there on everything. -/
structure Parts (p : ℕ → Bool) (first last r : ℕ) : Prop where
  lower : first ≤ r
  upper : r ≤ last
  before : ∀ i, first ≤ i → i < r → p i = false
  behind : ∀ i, r ≤ i → i < last → p i = true

theorem partitionPoint_parts (hmono : ∀ i j, i ≤ j → j < first + len → p i = true → p j = true)
    (hfuel : len ≤ fuel) : Parts p first (first + len) (partitionPoint p fuel first len) := by
  fun_induction partitionPoint p fuel first len with
  | case1 first len =>
    obtain rfl : len = 0 := by omega
    exact ⟨le_rfl, le_rfl, fun i _ _ => by omega, fun i _ _ => by omega⟩
  | case2 fuel first =>
    exact ⟨le_rfl, le_rfl, fun i _ _ => by omega, fun i _ _ => by omega⟩
  | case3 fuel first len hlen hp ih =>
    obtain ⟨hlower, hupper, hbefore, hbehind⟩ :=
      ih (fun i j hij hj => hmono i j hij (by omega)) (by omega)
    refine ⟨hlower, by omega, hbefore, fun i hi hlast => ?_⟩
    by_cases hhalf : i < first + len / 2
    · exact hbehind i hi hhalf
    · exact hmono _ i (by omega) hlast hp
  | case4 fuel first len hlen hp ih =>
    have hend : first + len / 2 + 1 + (len - len / 2 - 1) = first + len := by omega
    rw [hend] at ih
    obtain ⟨hlower, hupper, hbefore, hbehind⟩ := ih hmono (by omega)
    refine ⟨by omega, hupper, fun i hi hr => ?_, hbehind⟩
    by_cases hhalf : i ≤ first + len / 2
    · -- A position before the half is not in `p`, because the half is not.
      by_contra hne
      exact hp (hmono i _ hhalf (by omega) (by simpa using hne))
    · exact hbefore i (by omega) hr

section UpperBound

variable [LinearOrder α]

/-- The position of the first element of a sorted list that is greater than `v`. -/
def upperBound (xs : List α) (v : α) : ℕ :=
  partitionPoint (fun i => (xs[i]?).any fun x => v < x) xs.length 0 xs.length

theorem upperBound_le (xs : List α) (v : α) (h : xs.Pairwise (· < ·)) :
    upperBound xs v ≤ xs.length ∧ (∀ i x, xs[i]? = some x → (x ≤ v ↔ i < upperBound xs v)) := by
  have hmono : ∀ i j, i ≤ j → j < 0 + xs.length → ((xs[i]?).any fun x => v < x) = true →
      ((xs[j]?).any fun x => v < x) = true := by
    intro i j hij hj hi
    rw [Nat.zero_add] at hj
    rw [List.getElem?_eq_getElem hj]
    rw [List.getElem?_eq_getElem (hij.trans_lt hj)] at hi
    have hi : v < xs[i] := by simpa using hi
    rcases Nat.eq_or_lt_of_le hij with rfl | hlt
    · simpa using hi
    · have hlt' := List.pairwise_iff_getElem.mp h i j (hij.trans_lt hj) hj hlt
      simpa using hi.trans hlt'
  obtain ⟨-, hupper, hbefore, hbehind⟩ := partitionPoint_parts hmono le_rfl
  rw [Nat.zero_add] at hupper hbehind
  refine ⟨hupper, fun i x hx => ?_⟩
  have hi : i < xs.length := (List.getElem?_eq_some_iff.mp hx).1
  by_cases hlt : i < upperBound xs v
  · have hnot := hbefore i (Nat.zero_le i) hlt
    rw [hx] at hnot
    exact ⟨fun _ => hlt, fun _ => by simpa using hnot⟩
  · have hgt := hbehind i (not_lt.mp hlt) hi
    rw [hx] at hgt
    have hgt : v < x := by simpa using hgt
    exact ⟨fun hle => absurd hle (not_le.mpr hgt), fun hlt' => absurd hlt' hlt⟩

end UpperBound

end BinarySearch
