import Mathlib

/-! One-pass greedy selection along a ranked list. A set of positions is its indicator
vector, a list of flags compared lexicographically from the front. -/
namespace Greedy

variable {α : Type*}

/-- The entries at the positions of `m`, in order. -/
def pick : List Bool → List α → List α
  | true :: m, x :: xs => x :: pick m xs
  | false :: m, _ :: xs => pick m xs
  | _, _ => []

/-- The entries at the other positions. -/
def leave (m : List Bool) (xs : List α) : List α := pick (m.map not) xs

@[simp] theorem pick_nil (m : List Bool) : pick m ([] : List α) = [] := by
  cases m with
  | nil => rfl
  | cons b m => cases b <;> rfl

@[simp] theorem pick_true (m : List Bool) (x : α) (xs : List α) :
    pick (true :: m) (x :: xs) = x :: pick m xs := rfl

@[simp] theorem pick_false (m : List Bool) (x : α) (xs : List α) :
    pick (false :: m) (x :: xs) = pick m xs := rfl

@[simp] theorem leave_nil (m : List Bool) : leave m ([] : List α) = [] := pick_nil _

@[simp] theorem leave_true (m : List Bool) (x : α) (xs : List α) :
    leave (true :: m) (x :: xs) = leave m xs := rfl

@[simp] theorem leave_false (m : List Bool) (x : α) (xs : List α) :
    leave (false :: m) (x :: xs) = x :: leave m xs := rfl

theorem pick_sublist (m : List Bool) (xs : List α) : (pick m xs).Sublist xs := by
  induction xs generalizing m with
  | nil => simp
  | cons x xs ih =>
    match m with
    | [] => exact List.nil_sublist _
    | true :: m => exact (ih m).cons_cons x
    | false :: m => exact (ih m).cons x

theorem pick_map {β : Type*} (f : β → α) (m : List Bool) (ys : List β) :
    pick m (ys.map f) = (pick m ys).map f := by
  induction ys generalizing m with
  | nil => simp
  | cons y ys ih =>
    match m with
    | [] => rfl
    | true :: m => simp [ih m]
    | false :: m => simp [ih m]

/-- Every entry is picked or left, once. -/
theorem pick_append_leave_perm {m : List Bool} {xs : List α} (h : m.length = xs.length) :
    (pick m xs ++ leave m xs).Perm xs := by
  induction xs generalizing m with
  | nil => simp
  | cons x xs ih =>
    match m with
    | [] => simp at h
    | true :: m => exact (ih (by simpa using h)).cons x
    | false :: m =>
      exact List.perm_middle.trans ((ih (by simpa using h)).cons x)

/-- Flags of the greedy pass: an entry is taken when `fits` lets it join those taken so far. -/
def flags (fits : List α → α → Bool) : List α → List α → List Bool
  | _, [] => []
  | taken, x :: xs =>
      if fits taken x then true :: flags fits (taken ++ [x]) xs
      else false :: flags fits taken xs

@[simp] theorem flags_length (fits : List α → α → Bool) (taken xs : List α) :
    (flags fits taken xs).length = xs.length := by
  induction xs generalizing taken with
  | nil => rfl
  | cons x xs ih => simp only [flags]; split <;> simp [ih]

/-- The pass over a list of images is the pass over the list. -/
theorem flags_map {β : Type*} (fits : List α → α → Bool) (f : β → α) (taken ys : List β) :
    flags fits (taken.map f) (ys.map f) =
      flags (fun ts y => fits (ts.map f) (f y)) taken ys := by
  induction ys generalizing taken with
  | nil => rfl
  | cons y ys ih =>
    have htrue := ih (taken ++ [y])
    rw [List.map_append, List.map_singleton] at htrue
    simp only [List.map_cons, flags, htrue, ih taken]

/-- The pass over two lists in a row goes on with what it took from the first. -/
theorem flags_append (fits : List α → α → Bool) (taken xs ys : List α) :
    flags fits taken (xs ++ ys) =
      flags fits taken xs ++ flags fits (taken ++ pick (flags fits taken xs) xs) ys := by
  induction xs generalizing taken with
  | nil => simp [flags]
  | cons x xs ih =>
    simp only [List.cons_append, flags]
    split
    · simp [ih (taken ++ [x])]
    · simp [ih taken]

theorem pick_append {m m' : List Bool} {xs ys : List α} (h : m.length = xs.length) :
    pick (m ++ m') (xs ++ ys) = pick m xs ++ pick m' ys := by
  induction xs generalizing m with
  | nil =>
    obtain rfl := List.length_eq_zero_iff.mp h
    rfl
  | cons x xs ih =>
    match m with
    | [] => simp at h
    | true :: m => simp [ih (by simpa using h)]
    | false :: m => simp [ih (by simpa using h)]

/-- What the pass takes from `xs` on top of `taken`. -/
def takes (fits : List α → α → Bool) (taken xs : List α) : List α :=
  pick (flags fits taken xs) xs

@[simp] theorem takes_nil (fits : List α → α → Bool) (taken : List α) :
    takes fits taken [] = [] := rfl

theorem takes_cons_pos {fits : List α → α → Bool} {taken xs : List α} {x : α}
    (h : fits taken x = true) : takes fits taken (x :: xs) = x :: takes fits (taken ++ [x]) xs := by
  simp only [takes, flags, h, ↓reduceIte, pick_true]

theorem takes_cons_neg {fits : List α → α → Bool} {taken xs : List α} {x : α}
    (h : fits taken x = false) : takes fits taken (x :: xs) = takes fits taken xs := by
  simp only [takes, flags, h, Bool.false_eq_true, ↓reduceIte, pick_false]

theorem takes_singleton (fits : List α → α → Bool) (taken : List α) (x : α) :
    takes fits taken [x] = if fits taken x then [x] else [] := by
  cases h : fits taken x with
  | true => simp [takes_cons_pos h]
  | false => simp [takes_cons_neg h]

theorem takes_append (fits : List α → α → Bool) (taken xs ys : List α) :
    takes fits taken (xs ++ ys) =
      takes fits taken xs ++ takes fits (taken ++ takes fits taken xs) ys := by
  unfold takes
  rw [flags_append, pick_append (flags_length fits taken xs)]

theorem takes_sublist (fits : List α → α → Bool) (taken xs : List α) :
    (takes fits taken xs).Sublist xs := pick_sublist _ _

/-- The pass that stops taking at `cap` entries. -/
def capped (cap : ℕ) (fits : List α → α → Bool) (taken : List α) (x : α) : Bool :=
  decide (taken.length < cap) && fits taken x

/-- Up to the cap the pass takes what it takes without one. -/
theorem takes_capped {cap : ℕ} (fits : List α → α → Bool) {taken : List α} (xs : List α)
    (h : taken.length ≤ cap) :
    takes (capped cap fits) taken xs = (takes fits taken xs).take (cap - taken.length) := by
  induction xs generalizing taken with
  | nil => simp
  | cons x xs ih =>
    cases hfits : fits taken x with
    | false =>
      have hcapped : capped cap fits taken x = false := by simp [capped, hfits]
      rw [takes_cons_neg hcapped, takes_cons_neg hfits]
      exact ih h
    | true =>
      rcases h.lt_or_eq with hlt | hfull
      · have hcapped : capped cap fits taken x = true := by simp [capped, hfits, hlt]
        have hlength : (taken ++ [x]).length ≤ cap := by
          rw [List.length_append, List.length_singleton]
          exact hlt
        have hleft : cap - taken.length = cap - (taken ++ [x]).length + 1 := by
          rw [List.length_append, List.length_singleton]
          omega
        rw [takes_cons_pos hcapped, takes_cons_pos hfits, ih hlength, hleft, List.take_succ_cons]
      · -- the capped pass is full, the other goes on
        have hcapped : capped cap fits taken x = false := by simp [capped, hfull]
        rw [takes_cons_neg hcapped, ih h, hfull, Nat.sub_self, List.take_zero, List.take_zero]

/-- What is taken under a cap is the front of what is taken under a larger one. -/
theorem takes_capped_of_le {cap cap' : ℕ} (hle : cap ≤ cap') (fits : List α → α → Bool)
    (xs : List α) :
    takes (capped cap fits) [] xs = (takes (capped cap' fits) [] xs).take cap := by
  rw [takes_capped fits xs (Nat.zero_le cap), takes_capped fits xs (Nat.zero_le cap'),
    List.take_take, List.length_nil, Nat.sub_zero, Nat.sub_zero, min_eq_left hle]

/-- An entry that occurs once is taken exactly when it fits behind what is taken before it. -/
theorem mem_takes_iff {fits : List α → α → Bool} {taken before after : List α} {x : α}
    (hbefore : x ∉ before) (hafter : x ∉ after) :
    x ∈ takes fits taken (before ++ x :: after) ↔
      fits (taken ++ takes fits taken before) x = true := by
  have hb : x ∉ takes fits taken before := fun h => hbefore ((takes_sublist _ _ _).subset h)
  have ha (held : List α) : x ∉ takes fits held after :=
    fun h => hafter ((takes_sublist _ _ _).subset h)
  rw [takes_append, List.mem_append, or_iff_right hb]
  cases hfits : fits (taken ++ takes fits taken before) x with
  | true => simp [takes_cons_pos hfits]
  | false => simp [takes_cons_neg hfits, ha]

/-- Two passes over one list agree, or part at a first entry that one takes and the other not. -/
theorem takes_eq_or_diverge (fits fits' : List α → α → Bool) (taken xs : List α) :
    takes fits' taken xs = takes fits taken xs ∨
      ∃ before x after, xs = before ++ x :: after ∧
        takes fits' taken before = takes fits taken before ∧
        fits' (taken ++ takes fits taken before) x ≠ fits (taken ++ takes fits taken before) x := by
  induction xs using List.reverseRecOn with
  | nil => exact .inl rfl
  | append_singleton xs x ih =>
    rcases ih with hsame | ⟨before, y, after, rfl, hsame, hne⟩
    · by_cases hx : fits' (taken ++ takes fits taken xs) x = fits (taken ++ takes fits taken xs) x
      · left
        rw [takes_append, takes_append, hsame, takes_singleton, takes_singleton, hx]
      · exact .inr ⟨xs, x, [], rfl, hsame, hx⟩
    · exact .inr ⟨before, y, after ++ [x], by simp, hsame, hne⟩

/-- A rejected entry leaves no trace: without some of those that are not picked, the pass picks
the same entries. -/
theorem pick_flags_filter (fits : List α → α → Bool) (keep : α → Bool) {taken xs : List α}
    (h : ∀ x ∈ pick (flags fits taken xs) xs, keep x = true) :
    pick (flags fits taken (xs.filter keep)) (xs.filter keep) =
      pick (flags fits taken xs) xs := by
  induction xs generalizing taken with
  | nil => rfl
  | cons x xs ih =>
    cases hx : fits taken x with
    | true =>
      simp only [flags, hx, ↓reduceIte, pick_true, List.mem_cons, forall_eq_or_imp] at h ⊢
      obtain ⟨hkeep, htail⟩ := h
      simp only [List.filter_cons, hkeep, ↓reduceIte, flags, hx, pick_true, ih htail]
    | false =>
      simp only [flags, hx, Bool.false_eq_true, ↓reduceIte, pick_false] at h ⊢
      by_cases hkeep : keep x = true
      · simp only [List.filter_cons, hkeep, ↓reduceIte, flags, hx, Bool.false_eq_true,
          pick_false, ih h]
      · simp only [List.filter_cons, hkeep, Bool.false_eq_true, ↓reduceIte, ih h]

/-- A condition on every entry of a list and what stands before it. -/
theorem forall_split_cons {P : List α → α → Prop} {x : α} {xs : List α} :
    (∀ before y after, x :: xs = before ++ y :: after → P before y) ↔
      P [] x ∧ ∀ before y after, xs = before ++ y :: after → P (x :: before) y := by
  constructor
  · intro h
    refine ⟨h [] x xs rfl, ?_⟩
    intro before y after hs
    exact h (x :: before) y after (by rw [hs, List.cons_append])
  · rintro ⟨hx, h⟩ before y after hs
    cases before with
    | nil =>
      obtain ⟨rfl, -⟩ := List.cons.inj hs
      exact hx
    | cons z before =>
      obtain ⟨rfl, hs'⟩ := List.cons.inj hs
      exact h before y after hs'

/-- The flags of the pass are the ones that mark an entry exactly when it fits behind those
marked before it. -/
theorem eq_flags_iff {fits : List α → α → Bool} {taken xs : List α} {m : List Bool}
    (h : m.length = xs.length) :
    m = flags fits taken xs ↔ ∀ before x after, xs = before ++ x :: after →
      m[before.length]? = some (fits (taken ++ pick m before) x) := by
  induction xs generalizing taken m with
  | nil =>
    obtain rfl := List.length_eq_zero_iff.mp h
    simp [flags]
  | cons x xs ih =>
    rw [forall_split_cons]
    match m with
    | [] => simp at h
    | b :: m =>
      have hm : m.length = xs.length := by simpa using h
      cases b with
      | true =>
        cases hfits : fits taken x with
        | true => simp [flags, hfits, ih hm]
        | false => simp [flags, hfits]
      | false =>
        cases hfits : fits taken x with
        | true => simp [flags, hfits]
        | false => simp [flags, hfits, ih hm]

/-- Only good entries are picked if and only if no other entry fits behind the good ones before
it. -/
theorem forall_pick_flags_iff (fits : List α → α → Bool) (good : α → Bool) (taken xs : List α) :
    (∀ x ∈ pick (flags fits taken xs) xs, good x = true) ↔
      ∀ before x after, xs = before ++ x :: after → good x = false →
        fits (taken ++ pick (flags fits taken (before.filter good)) (before.filter good)) x =
          false := by
  induction xs generalizing taken with
  | nil => simp
  | cons x xs ih =>
    rw [forall_split_cons]
    cases hgood : good x with
    | true =>
      cases hfits : fits taken x with
      | true => simp [flags, hfits, hgood, ih (taken ++ [x])]
      | false => simp [flags, hfits, hgood, ih taken]
    | false =>
      cases hfits : fits taken x with
      | true => simp [flags, hfits, hgood]
      | false => simp [flags, hfits, hgood, ih taken]

/-- Feasibility that no further entry repairs, tested by `fits` one entry at a time. -/
structure Hereditary (good : α → Prop) (ok : List α → Prop) (fits : List α → α → Bool) :
    Prop where
  extends_ok : ∀ xs ys, (∀ y ∈ ys, good y) → ok (xs ++ ys) → ok xs
  fits_iff : ∀ xs x, good x → ok xs → (fits xs x = true ↔ ok (xs ++ [x]))

variable {good : α → Prop} {ok : List α → Prop} {fits : List α → α → Bool}

theorem flags_ok (h : Hereditary good ok fits) {taken xs : List α}
    (hg : ∀ x ∈ xs, good x) (ht : ok taken) : ok (taken ++ pick (flags fits taken xs) xs) := by
  induction xs generalizing taken with
  | nil => simpa using ht
  | cons x xs ih =>
    have hx := h.fits_iff taken x (hg x List.mem_cons_self) ht
    have hxs : ∀ y ∈ xs, good y := fun y hy => hg y (List.mem_cons_of_mem x hy)
    simp only [flags]
    split
    · next ha => simpa using ih hxs (hx.mp ha)
    · exact ih hxs ht

/-- At the first position where a feasible set differs from the greedy one, it is the
greedy set that holds the position. -/
theorem flags_max (h : Hereditary good ok fits) {taken xs : List α} {m : List Bool}
    (hg : ∀ x ∈ xs, good x) (ht : ok taken) (hm : m.length = xs.length)
    (hok : ok (taken ++ pick m xs)) : m ≤ flags fits taken xs := by
  induction xs generalizing taken m with
  | nil =>
    obtain rfl := List.length_eq_zero_iff.mp hm
    exact le_rfl
  | cons x xs ih =>
    have hx := h.fits_iff taken x (hg x List.mem_cons_self) ht
    have hxs : ∀ y ∈ xs, good y := fun y hy => hg y (List.mem_cons_of_mem x hy)
    match m with
    | [] => simp at hm
    | true :: m =>
      have hp : ok ((taken ++ [x]) ++ pick m xs) := by simpa using hok
      have hgood : ∀ y ∈ pick m xs, good y := fun y hy => hxs y ((pick_sublist m xs).subset hy)
      have hadm : fits taken x = true := hx.mpr (h.extends_ok _ _ hgood hp)
      simp only [flags, hadm, ↓reduceIte]
      exact List.cons_le_cons true (ih hxs (hx.mp hadm) (by simpa using hm) hp)
    | false :: m =>
      simp only [flags]
      split
      · exact le_of_lt (List.Lex.rel (by decide))
      · exact List.cons_le_cons false (ih hxs ht (by simpa using hm) hok)

/-- The greedy pass returns the lexicographically greatest feasible set. -/
theorem flags_isGreatest (h : Hereditary good ok fits) {xs : List α}
    (hg : ∀ x ∈ xs, good x) (h0 : ok []) :
    IsGreatest {m : List Bool | m.length = xs.length ∧ ok (pick m xs)} (flags fits [] xs) :=
  ⟨⟨flags_length fits [] xs, flags_ok h hg h0⟩, fun _ hm => flags_max h hg h0 hm.1 hm.2⟩

end Greedy
