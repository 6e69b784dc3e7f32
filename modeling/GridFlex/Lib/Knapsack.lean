import GridFlex.Lib.Greedy

/-! Greedy packing under a budget and a condition on the number of entries: it keeps to the
budget, a larger budget is not filled less, and heaviest first it packs half of what fits. -/
namespace Knapsack
open Greedy

variable {α K : Type*} [Field K] (weight : α → K)

def load (xs : List α) : K := (xs.map weight).sum

@[simp] theorem load_nil : load weight [] = 0 := rfl

@[simp] theorem load_cons (x : α) (xs : List α) :
    load weight (x :: xs) = weight x + load weight xs := by
  simp [load]

@[simp] theorem load_append (xs ys : List α) :
    load weight (xs ++ ys) = load weight xs + load weight ys := by
  simp [load]

theorem load_perm {xs ys : List α} (h : xs.Perm ys) : load weight xs = load weight ys :=
  (h.map weight).sum_eq

variable [LinearOrder K] (room : ℕ → Prop) [DecidablePred room]

/-- There is room for one more entry, some budget left and enough of it for `x`. -/
def fits (budget : K) (taken : List α) (x : α) : Bool :=
  decide (room taken.length ∧ 0 < budget - load weight taken ∧
    weight x ≤ budget - load weight taken)

/-- A limit on the number of entries caps the pass that has none. -/
theorem fits_eq_capped (cap : ℕ) (budget : K) :
    fits weight (· < cap) budget = capped cap (fits weight (fun _ => True) budget) := by
  funext taken x
  simp only [fits, capped, true_and, Bool.decide_and]

variable [IsStrictOrderedRing K]

theorem load_nonneg {xs : List α} (h : ∀ x ∈ xs, 0 ≤ weight x) : 0 ≤ load weight xs := by
  unfold load
  apply List.sum_nonneg
  intro w hw
  obtain ⟨x, hx, rfl⟩ := List.mem_map.mp hw
  exact h x hx

theorem weight_le_load {xs : List α} {x : α} (h : ∀ y ∈ xs, 0 ≤ weight y) (hx : x ∈ xs) :
    weight x ≤ load weight xs := by
  obtain ⟨front, rear, rfl⟩ := List.append_of_mem hx
  have hfront : 0 ≤ load weight front :=
    load_nonneg weight fun y hy => h y (List.mem_append_left _ hy)
  have hrear : 0 ≤ load weight rear :=
    load_nonneg weight fun y hy => h y (List.mem_append_right _ (List.mem_cons_of_mem x hy))
  simp only [load_append, load_cons]
  linarith

variable {weight room}

theorem fits_iff {budget : K} {taken : List α} {x : α} :
    fits weight room budget taken x = true ↔ room taken.length ∧ load weight taken < budget ∧
      load weight taken + weight x ≤ budget := by
  simp only [fits, decide_eq_true_eq, sub_pos, le_sub_iff_add_le']

/-- An entry of some weight needs no test of its own for the budget that is left. -/
theorem fits_iff_of_pos {budget : K} {taken : List α} {x : α} (hx : 0 < weight x) :
    fits weight room budget taken x = true ↔
      room taken.length ∧ load weight taken + weight x ≤ budget := by
  rw [fits_iff]
  constructor
  · rintro ⟨hlength, -, hfit⟩
    exact ⟨hlength, hfit⟩
  · rintro ⟨hlength, hfit⟩
    exact ⟨hlength, by linarith, hfit⟩

theorem not_fits_iff_of_pos {budget : K} {taken : List α} {x : α} (hx : 0 < weight x) :
    fits weight room budget taken x = false ↔
      (room taken.length → budget < load weight taken + weight x) := by
  rw [← Bool.not_eq_true, fits_iff_of_pos hx, not_and, not_le]

/-- Keeping to the budget and to a number of entries is what a pass over weights tests. -/
theorem hereditary (budget : K) (cap : ℕ) :
    Hereditary (fun x => 0 < weight x) (fun xs => load weight xs ≤ budget ∧ xs.length ≤ cap)
      (fits weight (· < cap) budget) where
  extends_ok xs ys hys := by
    rintro ⟨hload, hlength⟩
    have hnonneg : 0 ≤ load weight ys := load_nonneg weight fun y hy => (hys y hy).le
    rw [load_append] at hload
    rw [List.length_append] at hlength
    exact ⟨by linarith, by omega⟩
  fits_iff xs x hx _ := by
    rw [fits_iff_of_pos hx, load_append, load_cons, load_nil, add_zero, List.length_append,
      List.length_singleton, Nat.add_one_le_iff, and_comm]

theorem load_takes_le {budget : K} {taken : List α} (xs : List α)
    (h : load weight taken ≤ budget) :
    load weight taken + load weight (takes (fits weight room budget) taken xs) ≤ budget := by
  induction xs generalizing taken with
  | nil => simpa using h
  | cons x xs ih =>
    cases hx : fits weight room budget taken x with
    | true =>
      have hle : load weight (taken ++ [x]) ≤ budget := by simpa using (fits_iff.mp hx).2.2
      have hrest := ih hle
      rw [takes_cons_pos hx]
      simp only [load_append, load_cons, load_nil] at hrest ⊢
      linarith
    | false =>
      rw [takes_cons_neg hx]
      exact ih h

/-- What fits behind more entries fits behind fewer of them, and so does anything lighter. -/
theorem fits_of_append {budget : K} {taken ys : List α} {x x' : α}
    (hroom : ∀ m n, m ≤ n → room n → room m) (hys : ∀ y ∈ ys, 0 ≤ weight y)
    (hx : weight x' ≤ weight x) (h : fits weight room budget (taken ++ ys) x = true) :
    fits weight room budget taken x' = true := by
  obtain ⟨hlength, hlt, hle⟩ := fits_iff.mp h
  have hload := load_nonneg weight hys
  rw [load_append] at hlt hle
  refine fits_iff.mpr ⟨hroom _ _ ?_ hlength, by linarith, by linarith⟩
  rw [List.length_append]
  omega

/-- An entry that the pass leaves out does not fit behind all that it takes either. -/
theorem not_fits_takes {budget : K} {taken xs : List α} {x : α}
    (hroom : ∀ m n, m ≤ n → room n → room m) (hxs : ∀ y ∈ xs, 0 ≤ weight y) (hx : x ∈ xs)
    (h : x ∉ takes (fits weight room budget) taken xs) :
    fits weight room budget (taken ++ takes (fits weight room budget) taken xs) x = false := by
  by_contra hfits
  have hend := (Bool.not_eq_false _).mp hfits
  obtain ⟨before, after, rfl⟩ := List.append_of_mem hx
  rw [takes_append, ← List.append_assoc] at hend
  have hturn : fits weight room budget
      (taken ++ takes (fits weight room budget) taken before) x = true := by
    refine fits_of_append hroom ?_ le_rfl hend
    intro y hy
    exact hxs y (List.mem_append_right before ((takes_sublist _ _ _).subset hy))
  rw [takes_append, takes_cons_pos hturn] at h
  exact h (List.mem_append_right _ List.mem_cons_self)

/-- With a larger budget the pass packs no less. -/
theorem load_takes_mono {budget budget' : K} (hbudget : 0 ≤ budget) (hle : budget ≤ budget')
    {xs : List α} (hpos : ∀ x ∈ xs, 0 < weight x) :
    load weight (takes (fits weight room budget) [] xs) ≤
      load weight (takes (fits weight room budget') [] xs) := by
  rcases takes_eq_or_diverge (fits weight room budget) (fits weight room budget') [] xs with
    hsame | ⟨before, x, after, hxs, hsame, hne⟩
  · rw [hsame]
  · -- the larger budget takes the entry at which the two part, and is beyond the smaller one
    subst hxs
    let taken := takes (fits weight room budget) [] before
    have hmono : fits weight room budget taken x = true →
        fits weight room budget' taken x = true := by
      intro h
      obtain ⟨hlength, hlt, hfit⟩ := fits_iff.mp h
      exact fits_iff.mpr ⟨hlength, hlt.trans_le hle, hfit.trans hle⟩
    have hx : fits weight room budget taken x = false := by
      by_contra hx
      have hx' := (Bool.not_eq_false _).mp hx
      exact hne ((hmono hx').trans hx'.symm)
    have hx' : fits weight room budget' taken x = true := by
      by_contra hx'
      exact hne (((Bool.not_eq_true _).mp hx').trans hx.symm)
    have hlength := (fits_iff.mp hx').1
    have hxpos : 0 < weight x := hpos x (by simp)
    have hover : budget < load weight taken + weight x :=
      (not_fits_iff_of_pos hxpos).mp hx hlength
    have hsmall : load weight ([] : List α) +
        load weight (takes (fits weight room budget) [] (before ++ x :: after)) ≤ budget :=
      load_takes_le _ (by simpa using hbudget)
    have hlarge : load weight taken + weight x ≤
        load weight (takes (fits weight room budget') [] (before ++ x :: after)) := by
      rw [takes_append, hsame, List.nil_append, takes_cons_pos hx']
      have hrest : 0 ≤ load weight (takes (fits weight room budget') (taken ++ [x]) after) :=
        load_nonneg weight fun y hy =>
          (hpos y (by simp [(takes_sublist _ _ _).subset hy])).le
      simp only [load_append, load_cons]
      linarith
    simp only [load_nil, zero_add] at hsmall
    linarith

/-- An entry that does not fit a sorted pass is too heavy by itself, or the pass is full. -/
theorem not_fits_cases {cap : ℕ} {budget : K} (hbudget : 0 < budget) {taken : List α} {x : α}
    (hnonneg : ∀ t ∈ taken, 0 ≤ weight t) (hheavy : ∀ t ∈ taken, weight x ≤ weight t)
    (h : fits weight (· < cap) budget taken x = false) :
    cap ≤ taken.length ∨ budget < weight x ∨ budget < 2 * load weight taken := by
  by_contra hnot
  simp only [not_or, not_le, not_lt] at hnot
  obtain ⟨hlength, hx, hhalf⟩ := hnot
  have hload : 0 ≤ load weight taken := load_nonneg weight hnonneg
  have hfits : fits weight (· < cap) budget taken x = true := by
    refine fits_iff.mpr ⟨hlength, by linarith, ?_⟩
    cases taken with
    | nil => simpa using hx
    | cons t taken =>
      have htx : weight x ≤ weight t := hheavy t List.mem_cons_self
      have htl := weight_le_load weight hnonneg List.mem_cons_self
      linarith
  rw [hfits] at h
  exact Bool.false_ne_true h.symm

/-- Heaviest first, the pass is beyond half of the budget or packs no less than any other choice
of entries that keeps to the budget and to the same number of entries. -/
theorem load_sublist_le {cap : ℕ} {budget : K} (hbudget : 0 < budget) {taken xs : List α}
    (hsorted : (taken ++ xs).Pairwise fun x y => weight y ≤ weight x)
    (hnonneg : ∀ x ∈ taken ++ xs, 0 ≤ weight x) {choice : List α} (hchoice : choice.Sublist xs)
    (hload : ∀ x ∈ choice, weight x ≤ budget) (hcap : taken.length + choice.length ≤ cap) :
    budget < 2 * (load weight taken +
        load weight (takes (fits weight (· < cap) budget) taken xs)) ∨
      load weight choice ≤ load weight (takes (fits weight (· < cap) budget) taken xs) := by
  induction xs generalizing taken choice with
  | nil =>
    obtain rfl := List.sublist_nil.mp hchoice
    exact .inr le_rfl
  | cons x xs ih =>
    have htaken : ∀ t ∈ taken, 0 ≤ weight t := fun t ht => hnonneg t (by simp [ht])
    have hrest : 0 ≤ load weight (takes (fits weight (· < cap) budget) taken (x :: xs)) :=
      load_nonneg weight fun y hy =>
        hnonneg y (List.mem_append_right _ ((takes_sublist _ _ _).subset hy))
    have hskip : (taken ++ xs).Sublist (taken ++ x :: xs) :=
      (List.sublist_cons_self x xs).append_left taken
    cases hfits : fits weight (· < cap) budget taken x with
    | true =>
      cases choice with
      | nil => exact .inr (by simpa using hrest)
      | cons t choice =>
        -- `x` stands in for the heaviest entry of the choice
        have hshift : taken ++ x :: xs = (taken ++ [x]) ++ xs := by simp
        have hbehind : ∀ y ∈ xs, weight y ≤ weight x :=
          (List.pairwise_cons.mp (List.pairwise_append.mp hsorted).2.1).1
        have ht : choice.Sublist xs ∧ weight t ≤ weight x := by
          cases hchoice with
          | cons _ h => exact ⟨(List.sublist_cons_self t choice).trans h,
              hbehind t (h.subset List.mem_cons_self)⟩
          | cons_cons _ h => exact ⟨h, le_rfl⟩
        have hcap' : (taken ++ [x]).length + choice.length ≤ cap := by
          rw [List.length_append, List.length_singleton]
          rw [List.length_cons] at hcap
          omega
        rw [hshift] at hsorted hnonneg
        have hih := ih hsorted hnonneg ht.1
          (fun y hy => hload y (List.mem_cons_of_mem t hy)) hcap'
        rw [takes_cons_pos hfits]
        simp only [load_append, load_cons, load_nil] at hih ⊢
        rcases hih with hhalf | hle
        · left
          linarith
        · right
          linarith [ht.2]
    | false =>
      have hheavy : ∀ t ∈ taken, weight x ≤ weight t := fun t ht =>
        (List.pairwise_append.mp hsorted).2.2 t ht x List.mem_cons_self
      rcases not_fits_cases hbudget htaken hheavy hfits with hfull | hbig | hhalf
      · have hnil : choice = [] := List.length_eq_zero_iff.mp (by omega)
        exact .inr (by simpa [hnil] using hrest)
      · have hchoice' : choice.Sublist xs := by
          cases hchoice with
          | cons _ h => exact h
          | cons_cons _ h => exact absurd (hload x List.mem_cons_self) (not_le.mpr hbig)
        rw [takes_cons_neg hfits]
        exact ih (hsorted.sublist hskip) (fun y hy => hnonneg y (hskip.subset hy)) hchoice'
          hload hcap
      · left
        linarith

/-- Heaviest first, the pass packs at least half of what any choice within the limits holds. -/
theorem load_le_two_mul {cap : ℕ} {budget : K} (hbudget : 0 < budget) {xs choice : List α}
    (hsorted : xs.Pairwise fun x y => weight y ≤ weight x) (hnonneg : ∀ x ∈ xs, 0 ≤ weight x)
    (hchoice : choice.Subperm xs) (hload : load weight choice ≤ budget)
    (hcap : choice.length ≤ cap) :
    load weight choice ≤ 2 * load weight (takes (fits weight (· < cap) budget) [] xs) := by
  obtain ⟨copy, hperm, hsub⟩ := hchoice
  have hcopy : ∀ x ∈ copy, 0 ≤ weight x := fun x hx => hnonneg x (hsub.subset hx)
  rw [← load_perm weight hperm] at hload ⊢
  have hlength : ([] : List α).length + copy.length ≤ cap := by
    simpa [hperm.length_eq] using hcap
  have htakes : 0 ≤ load weight (takes (fits weight (· < cap) budget) [] xs) :=
    load_nonneg weight fun y hy => hnonneg y ((takes_sublist _ _ _).subset hy)
  have hsorted' : ([] ++ xs).Pairwise fun x y => weight y ≤ weight x := hsorted
  have hcases := load_sublist_le hbudget hsorted' hnonneg hsub
    (fun x hx => (weight_le_load weight hcopy hx).trans hload) hlength
  simp only [load_nil, zero_add] at hcases
  rcases hcases with hhalf | hle
  · linarith
  · linarith

end Knapsack
