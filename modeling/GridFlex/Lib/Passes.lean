import GridFlex.Lib.Knapsack

/-! Two greedy passes in a row. The second one runs over what the first has left, with what it
has not used up, and together they are one pass. -/
namespace Greedy

variable {α : Type*}

/-- What the pass leaves of `xs` on top of `taken`. -/
def leaves (fits : List α → α → Bool) (taken xs : List α) : List α :=
  leave (flags fits taken xs) xs

@[simp] theorem leaves_nil (fits : List α → α → Bool) (taken : List α) :
    leaves fits taken [] = [] := rfl

theorem leaves_cons_pos {fits : List α → α → Bool} {taken xs : List α} {x : α}
    (h : fits taken x = true) : leaves fits taken (x :: xs) = leaves fits (taken ++ [x]) xs := by
  simp only [leaves, flags, h, ↓reduceIte, leave_true]

theorem leaves_cons_neg {fits : List α → α → Bool} {taken xs : List α} {x : α}
    (h : fits taken x = false) : leaves fits taken (x :: xs) = x :: leaves fits taken xs := by
  simp only [leaves, flags, h, Bool.false_eq_true, ↓reduceIte, leave_false]

theorem leaves_sublist (fits : List α → α → Bool) (taken xs : List α) :
    (leaves fits taken xs).Sublist xs := pick_sublist _ _

/-- A pass that holds some entries from the start. -/
theorem flags_held (fits : List α → α → Bool) (held taken xs : List α) :
    flags (fun taken x => fits (held ++ taken) x) taken xs = flags fits (held ++ taken) xs := by
  induction xs generalizing taken with
  | nil => rfl
  | cons x xs ih =>
    simp only [flags, ih, List.append_assoc]

theorem takes_held (fits : List α → α → Bool) (held xs : List α) :
    takes (fun taken x => fits (held ++ taken) x) [] xs = takes fits held xs := by
  unfold takes
  rw [flags_held, List.append_nil]

theorem leaves_held (fits : List α → α → Bool) (held xs : List α) :
    leaves (fun taken x => fits (held ++ taken) x) [] xs = leaves fits held xs := by
  unfold leaves
  rw [flags_held, List.append_nil]

/-- A pass that fits nothing takes nothing. -/
theorem takes_of_full {fits : List α → α → Bool} {taken xs : List α}
    (h : ∀ x ∈ xs, fits taken x = false) :
    takes fits taken xs = [] ∧ leaves fits taken xs = xs := by
  induction xs with
  | nil => exact ⟨rfl, rfl⟩
  | cons x xs ih =>
    have hx := h x List.mem_cons_self
    obtain ⟨htakes, hleaves⟩ := ih fun y hy => h y (List.mem_cons_of_mem x hy)
    rw [takes_cons_neg hx, leaves_cons_neg hx, htakes, hleaves]
    exact ⟨rfl, rfl⟩

/-- `fits` is the test of a pass that stops before `fits'` does: it lets the same entries pass
until from some point on it lets none. -/
structure StopsBefore (good : α → Prop) (fits fits' : List α → α → Bool) : Prop where
  le : ∀ taken x, fits taken x = true → fits' taken x = true
  stopped : ∀ taken x, fits' taken x = true → fits taken x = false → ∀ y, fits taken y = false
  anti : ∀ taken ys x, (∀ y ∈ ys, good y) → fits' (taken ++ ys) x = true → fits' taken x = true

/-- The longer pass is the shorter one followed by a pass over what that one leaves. -/
theorem takes_resume {good : α → Prop} {fits fits' : List α → α → Bool}
    (h : StopsBefore good fits fits') (taken : List α) {xs : List α} (hgood : ∀ x ∈ xs, good x) :
    takes fits' taken xs = takes fits taken xs ++
        takes fits' (taken ++ takes fits taken xs) (leaves fits taken xs) ∧
      leaves fits' taken xs =
        leaves fits' (taken ++ takes fits taken xs) (leaves fits taken xs) := by
  induction xs generalizing taken with
  | nil => exact ⟨rfl, rfl⟩
  | cons x xs ih =>
    have hrest : ∀ y ∈ xs, good y := fun y hy => hgood y (List.mem_cons_of_mem x hy)
    cases hx : fits taken x with
    | true =>
      obtain ⟨htakes, hleaves⟩ := ih (taken ++ [x]) hrest
      have hx' := h.le taken x hx
      rw [takes_cons_pos hx', leaves_cons_pos hx', takes_cons_pos hx, leaves_cons_pos hx, htakes,
        hleaves]
      simp only [List.append_assoc, List.cons_append, List.nil_append, and_self]
    | false =>
      cases hx' : fits' taken x with
      | true =>
        -- the shorter pass has stopped
        obtain ⟨htakes, hleaves⟩ := takes_of_full fun y (_ : y ∈ x :: xs) =>
          h.stopped taken x hx' hx y
        rw [htakes, hleaves, List.nil_append, List.append_nil]
        exact ⟨rfl, rfl⟩
      | false =>
        have hlater : fits' (taken ++ takes fits taken xs) x = false := by
          by_contra hfits
          have hnow := h.anti taken _ x
            (fun y hy => hrest y ((takes_sublist _ _ _).subset hy)) ((Bool.not_eq_false _).mp hfits)
          rw [hx'] at hnow
          exact Bool.false_ne_true hnow
        obtain ⟨htakes, hleaves⟩ := ih taken hrest
        rw [takes_cons_neg hx', takes_cons_neg hx, leaves_cons_neg hx', leaves_cons_neg hx,
          takes_cons_neg hlater, leaves_cons_neg hlater, ← htakes, ← hleaves]
        exact ⟨rfl, rfl⟩

theorem capped_stopsBefore {good : α → Prop} {fits : List α → α → Bool} {cap cap' : ℕ}
    (hle : cap ≤ cap')
    (hanti : ∀ taken ys x, (∀ y ∈ ys, good y) → fits (taken ++ ys) x = true →
      fits taken x = true) :
    StopsBefore good (capped cap fits) (capped cap' fits) where
  le taken x h := by
    simp only [capped, Bool.and_eq_true, decide_eq_true_eq] at h ⊢
    exact ⟨by omega, h.2⟩
  stopped taken x h' h y := by
    simp only [capped, Bool.and_eq_true, decide_eq_true_eq] at h'
    simp only [capped, h'.2, Bool.and_true, decide_eq_false_iff_not] at h
    simp [capped, h]
  anti taken ys x hys h := by
    simp only [capped, Bool.and_eq_true, decide_eq_true_eq, List.length_append] at h ⊢
    exact ⟨by omega, hanti taken ys x hys h.2⟩

end Greedy

namespace Knapsack
open Greedy

variable {α K : Type*} [Field K] [LinearOrder K] {weight : α → K}

/-- Behind what is held, a packing goes on with the rest of the budget and of the cap. -/
theorem fits_held {cap : ℕ} {budget : K} (held : List α) (hheld : held.length ≤ cap) :
    (fun taken x => fits weight (· < cap) budget (held ++ taken) x) =
      fits weight (· < cap - held.length) (budget - load weight held) := by
  funext taken x
  have hlength : held.length + taken.length < cap ↔ taken.length < cap - held.length := by omega
  simp only [fits, List.length_append, load_append, hlength, sub_sub]

theorem length_takes_le (cap : ℕ) (budget : K) (xs : List α) :
    (takes (fits weight (· < cap) budget) [] xs).length ≤ cap := by
  have hlength : ([] : List α).length ≤ cap := Nat.zero_le cap
  rw [fits_eq_capped, takes_capped _ xs hlength, List.length_take]
  exact Nat.min_le_left _ _

variable [IsStrictOrderedRing K]

/-- A packing that stops at `cap` and is taken up again over what it left packs what one
packing that stops at `cap'` does. -/
theorem takes_two_rounds {cap cap' : ℕ} {budget : K} (hle : cap ≤ cap') {xs : List α}
    (hpos : ∀ x ∈ xs, 0 < weight x) :
    let first := takes (fits weight (· < cap) budget) [] xs
    let rest := leaves (fits weight (· < cap) budget) [] xs
    let again := fits weight (· < cap' - first.length) (budget - load weight first)
    takes (fits weight (· < cap') budget) [] xs = first ++ takes again [] rest ∧
      leaves (fits weight (· < cap') budget) [] xs = leaves again [] rest := by
  intro first rest again
  have hstops : StopsBefore (fun x => 0 < weight x) (fits weight (· < cap) budget)
      (fits weight (· < cap') budget) := by
    rw [fits_eq_capped, fits_eq_capped]
    apply capped_stopsBefore hle
    intro taken ys x hys h
    exact fits_of_append (fun _ _ _ _ => trivial) (fun y hy => (hys y hy).le) le_rfl h
  have hlength : first.length ≤ cap' := (length_takes_le cap budget xs).trans hle
  obtain ⟨htakes, hleaves⟩ := takes_resume hstops [] hpos
  rw [List.nil_append] at htakes hleaves
  have hagain : again = fun taken x => fits weight (· < cap') budget (first ++ taken) x :=
    (fits_held first hlength).symm
  rw [hagain, takes_held, leaves_held]
  exact ⟨htakes, hleaves⟩

end Knapsack
