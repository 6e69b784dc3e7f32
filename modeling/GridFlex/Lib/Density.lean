import GridFlex.Lib.Knapsack

/-! Greedy packing of entries that are worth something: by worth for its weight the pass misses at
most one entry's worth, by worth alone it holds as much as any single entry. -/
namespace Greedy

variable {α : Type*}

theorem takes_true (taken xs : List α) : takes (fun _ _ => true) taken xs = xs := by
  induction xs generalizing taken with
  | nil => rfl
  | cons x xs ih => rw [takes_cons_pos rfl, ih]

/-- The pass takes everything, or there is a first entry that it leaves. -/
theorem takes_eq_self_or_leaves (fits : List α → α → Bool) (xs : List α) :
    takes fits [] xs = xs ∨ ∃ before x after, xs = before ++ x :: after ∧
      takes fits [] before = before ∧ fits before x = false := by
  rcases takes_eq_or_diverge fits (fun _ _ => true) [] xs with
    hsame | ⟨before, x, after, hxs, hsame, hne⟩
  · rw [takes_true] at hsame
    exact Or.inl hsame.symm
  · rw [takes_true] at hsame
    rw [← hsame] at hne
    exact Or.inr ⟨before, x, after, hxs, hsame.symm, by simpa using hne.symm⟩

theorem leave_append {m m' : List Bool} {xs ys : List α} (h : m.length = xs.length) :
    leave (m ++ m') (xs ++ ys) = leave m xs ++ leave m' ys := by
  unfold leave
  rw [List.map_append]
  exact pick_append (by simpa using h)

/-- The entry that the pass comes to and does not take is left. -/
theorem mem_leave {fits : List α → α → Bool} {taken before after : List α} {x : α}
    (h : fits (taken ++ takes fits taken before) x = false) :
    x ∈ leave (flags fits taken (before ++ x :: after)) (before ++ x :: after) := by
  unfold takes at h
  rw [flags_append, leave_append (flags_length fits taken before)]
  simp [flags, h]

end Greedy

namespace Knapsack
open Greedy

variable {α K : Type*} [Field K] [LinearOrder K] [IsStrictOrderedRing K]

theorem load_nonpos {worth : α → K} {xs : List α} (h : ∀ x ∈ xs, worth x ≤ 0) :
    load worth xs ≤ 0 := by
  induction xs with
  | nil => simp
  | cons x xs ih =>
    have hx := h x List.mem_cons_self
    have hxs := ih fun y hy => h y (List.mem_cons_of_mem x hy)
    rw [load_cons]
    linarith

theorem load_le_of_sublist {worth : α → K} {xs ys : List α} (h : xs.Sublist ys)
    (hys : ∀ y ∈ ys, 0 ≤ worth y) : load worth xs ≤ load worth ys := by
  obtain ⟨rest, hperm⟩ := h.exists_perm_append
  have hrest : 0 ≤ load worth rest :=
    load_nonneg worth fun y hy => hys y (hperm.symm.subset (List.mem_append_right xs hy))
  rw [load_perm worth hperm, load_append]
  linarith

/-- Of entries whose good ones come first nothing is worth more than the good ones. -/
theorem load_le_front (worth : α → K) {front rear choice : List α}
    (hchoice : choice.Subperm (front ++ rear)) (hfront : ∀ x ∈ front, 0 ≤ worth x)
    (hrear : ∀ x ∈ rear, worth x ≤ 0) : load worth choice ≤ load worth front := by
  obtain ⟨copy, hperm, hsub⟩ := hchoice
  obtain ⟨copy₁, copy₂, rfl, hsub₁, hsub₂⟩ := List.sublist_append_iff.mp hsub
  have hle : load worth copy₁ ≤ load worth front := load_le_of_sublist hsub₁ hfront
  have hnonpos : load worth copy₂ ≤ 0 := load_nonpos fun x hx => hrear x (hsub₂.subset hx)
  rw [← load_perm worth hperm, load_append]
  linarith

omit [LinearOrder K] [IsStrictOrderedRing K] in
/-- The worth above a price for the weight. -/
theorem load_sub_price (weight density : α → K) (price : K) (xs : List α) :
    load (fun x => weight x * (density x - price)) xs =
      load (fun x => weight x * density x) xs - price * load weight xs := by
  induction xs with
  | nil => simp
  | cons x xs ih =>
    simp only [load_cons, ih]
    ring

variable {weight density : α → K} {room : ℕ → Prop} [DecidablePred room]

/-- By density, as long as there is room, the pass misses at most the worth of one entry that it
leaves. -/
theorem load_le_add_left {budget : K} (hroom : ∀ m n, m ≤ n → room n → room m)
    {xs choice : List α} (hspare : room (takes (fits weight room budget) [] xs).length)
    (hsorted : xs.Pairwise fun x y => density y ≤ density x) (hpos : ∀ x ∈ xs, 0 < weight x)
    (hdensity : ∀ x ∈ xs, 0 ≤ density x) (hchoice : choice.Subperm xs)
    (hload : load weight choice ≤ budget) :
    let worth := fun x => weight x * density x
    load worth choice ≤ load worth (takes (fits weight room budget) [] xs) ∨
      ∃ x ∈ leave (flags (fits weight room budget) [] xs) xs,
        load worth choice ≤ load worth (takes (fits weight room budget) [] xs) + worth x := by
  intro worth
  have hworth : ∀ x ∈ xs, 0 ≤ worth x := fun x hx => mul_nonneg (hpos x hx).le (hdensity x hx)
  rcases takes_eq_self_or_leaves (fits weight room budget) xs with hall |
    ⟨before, x, after, rfl, hbefore, hx⟩
  · left
    rw [hall]
    rw [← List.append_nil xs] at hchoice
    exact load_le_front worth hchoice hworth (by simp)
  · right
    have htakes : takes (fits weight room budget) [] (before ++ x :: after) =
        before ++ takes (fits weight room budget) before (x :: after) := by
      rw [takes_append, hbefore, List.nil_append]
    have hxpos : 0 < weight x := hpos x (by simp)
    have hroom' : room before.length := by
      rw [htakes, List.length_append] at hspare
      exact hroom _ _ (Nat.le_add_right _ _) hspare
    have hover : budget < load weight before + weight x := (not_fits_iff_of_pos hxpos).mp hx hroom'
    -- at the density of `x` as the price, what comes before `x` is all that is worth taking
    obtain ⟨-, hbehind, hahead⟩ := List.pairwise_append.mp hsorted
    have hprofit := load_le_front (fun y => weight y * (density y - density x)) hchoice
      (fun y hy => mul_nonneg (hpos y (by simp [hy])).le
        (sub_nonneg.mpr (hahead y hy x List.mem_cons_self)))
      (fun y hy => by
        have hle : density y ≤ density x := by
          rcases List.mem_cons.mp hy with rfl | hafter
          · exact le_rfl
          · exact (List.pairwise_cons.mp hbehind).1 y hafter
        exact mul_nonpos_of_nonneg_of_nonpos (hpos y (by simp [hy])).le (sub_nonpos.mpr hle))
    rw [load_sub_price, load_sub_price] at hprofit
    have hprice : density x * load weight choice ≤
        density x * (load weight before + weight x) :=
      mul_le_mul_of_nonneg_left (hload.trans hover.le) (hdensity x (by simp))
    have hrest : 0 ≤ load worth (takes (fits weight room budget) before (x :: after)) :=
      load_nonneg worth fun y hy =>
        hworth y (List.mem_append_right before ((takes_sublist _ _ _).subset hy))
    refine ⟨x, mem_leave (by rwa [List.nil_append, hbefore]), ?_⟩
    rw [htakes, load_append]
    simp only [worth] at hrest ⊢
    linarith

/-- By worth, the pass holds as much as any entry that is within the budget by itself. -/
theorem worth_le_load_takes {worth : α → K} {budget : K} (hroom : room 0) (hbudget : 0 < budget)
    {xs : List α} (hsorted : xs.Pairwise fun x y => worth y ≤ worth x)
    (hworth : ∀ x ∈ xs, 0 ≤ worth x) {x : α} (hx : x ∈ xs) (hfit : weight x ≤ budget) :
    worth x ≤ load worth (takes (fits weight room budget) [] xs) := by
  obtain ⟨before, after, rfl⟩ := List.append_of_mem hx
  have hnonneg : ∀ y ∈ takes (fits weight room budget) [] (before ++ x :: after), 0 ≤ worth y :=
    fun y hy => hworth y ((takes_sublist _ _ _).subset hy)
  cases hbefore : takes (fits weight room budget) [] before with
  | nil =>
    have hfits : fits weight room budget [] x = true :=
      fits_iff.mpr ⟨hroom, by simpa using hbudget, by simpa using hfit⟩
    apply weight_le_load worth hnonneg
    rw [takes_append, hbefore, List.append_nil, List.nil_append, takes_cons_pos hfits]
    exact List.mem_cons_self
  | cons y ys =>
    have hy : y ∈ takes (fits weight room budget) [] before := hbefore ▸ List.mem_cons_self
    have hle : worth x ≤ worth y := (List.pairwise_append.mp hsorted).2.2 y
      ((takes_sublist _ _ _).subset hy) x List.mem_cons_self
    have hload := weight_le_load worth hnonneg (x := y) (by
      rw [takes_append]
      exact List.mem_append_left _ hy)
    exact hle.trans hload

/-- So a choice of `k` entries is worth at most `k` times as much. -/
theorem load_le_length_mul {worth : α → K} {budget : K} (hroom : room 0) (hbudget : 0 < budget)
    {xs choice : List α} (hsorted : xs.Pairwise fun x y => worth y ≤ worth x)
    (hworth : ∀ x ∈ xs, 0 ≤ worth x) (hchoice : choice.Subperm xs)
    (hfit : ∀ x ∈ choice, weight x ≤ budget) :
    load worth choice ≤
      choice.length * load worth (takes (fits weight room budget) [] xs) := by
  have hle : (choice.map worth).sum ≤
      (choice.map worth).length • load worth (takes (fits weight room budget) [] xs) := by
    apply List.sum_le_card_nsmul
    intro w hw
    obtain ⟨x, hx, rfl⟩ := List.mem_map.mp hw
    exact worth_le_load_takes hroom hbudget hsorted hworth (hchoice.subset hx) (hfit x hx)
  simpa [load, nsmul_eq_mul] using hle

end Knapsack
