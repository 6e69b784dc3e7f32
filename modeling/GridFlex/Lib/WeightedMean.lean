import Mathlib

/-! Means of a list of values under weights that need not add up to one. -/
namespace WeightedMean

variable {α K : Type*} [Field K] (weight value : α → K)

def total (xs : List α) : K := (xs.map weight).sum

def weighted (xs : List α) : K := (xs.map fun x => weight x * value x).sum

def mean (xs : List α) : K := weighted weight value xs / total weight xs

variable [LinearOrder K] [IsStrictOrderedRing K] {weight value} {xs : List α} {bound : K}

/-- Only an empty list has nothing to divide by. -/
theorem total_pos (hne : xs ≠ []) (hpos : ∀ x ∈ xs, 0 < weight x) : 0 < total weight xs := by
  apply List.sum_pos
  · intro w hw
    obtain ⟨x, hx, rfl⟩ := List.mem_map.mp hw
    exact hpos x hx
  · simpa using hne

theorem weighted_le (hweight : ∀ x ∈ xs, 0 ≤ weight x) (h : ∀ x ∈ xs, value x ≤ bound) :
    weighted weight value xs ≤ total weight xs * bound := by
  unfold weighted total
  rw [← List.sum_map_mul_right]
  apply List.sum_le_sum
  intro x hx
  exact mul_le_mul_of_nonneg_left (h x hx) (hweight x hx)

theorem le_weighted (hweight : ∀ x ∈ xs, 0 ≤ weight x) (h : ∀ x ∈ xs, bound ≤ value x) :
    total weight xs * bound ≤ weighted weight value xs := by
  unfold weighted total
  rw [← List.sum_map_mul_right]
  apply List.sum_le_sum
  intro x hx
  exact mul_le_mul_of_nonneg_left (h x hx) (hweight x hx)

theorem mean_le (hne : xs ≠ []) (hpos : ∀ x ∈ xs, 0 < weight x)
    (h : ∀ x ∈ xs, value x ≤ bound) : mean weight value xs ≤ bound := by
  rw [mean, div_le_iff₀' (total_pos hne hpos)]
  exact weighted_le (fun x hx => (hpos x hx).le) h

theorem le_mean (hne : xs ≠ []) (hpos : ∀ x ∈ xs, 0 < weight x)
    (h : ∀ x ∈ xs, bound ≤ value x) : bound ≤ mean weight value xs := by
  rw [mean, le_div_iff₀' (total_pos hne hpos)]
  exact le_weighted (fun x hx => (hpos x hx).le) h

/-- The mean lies between the least and the greatest value. -/
theorem mean_between (value : α → K) (hne : xs ≠ []) (hpos : ∀ x ∈ xs, 0 < weight x) :
    (∃ a ∈ xs, (∀ x ∈ xs, value a ≤ value x) ∧ value a ≤ mean weight value xs) ∧
      ∃ b ∈ xs, (∀ x ∈ xs, value x ≤ value b) ∧ mean weight value xs ≤ value b := by
  have hnonempty : {x | x ∈ xs}.Nonempty := List.exists_mem_of_ne_nil xs hne
  obtain ⟨a, ha, hleast⟩ := Set.exists_min_image _ value xs.finite_toSet hnonempty
  obtain ⟨b, hb, hgreatest⟩ := Set.exists_max_image _ value xs.finite_toSet hnonempty
  exact ⟨⟨a, ha, hleast, le_mean hne hpos hleast⟩, b, hb, hgreatest, mean_le hne hpos hgreatest⟩

end WeightedMean
