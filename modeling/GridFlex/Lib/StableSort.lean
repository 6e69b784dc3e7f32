import Mathlib

/-! Stable sorting by a total preorder: what it is, that insertion sort does it, and that
it determines its output. -/
namespace StableSort

variable {α : Type*} (r : α → α → Prop) [DecidableRel r]

/-- Elements that the preorder ties with `a`. -/
def tied (a b : α) : Bool := decide (r a b ∧ r b a)

/-- `ys` is `xs` sorted by `r`, every class of tied elements in its order in `xs`. -/
structure IsStableSort (xs ys : List α) : Prop where
  perm : ys.Perm xs
  sorted : ys.Pairwise r
  ties : ∀ a, ys.filter (tied r a) = xs.filter (tied r a)

variable {r}

theorem tied_self [Std.Refl r] (a : α) : tied r a a = true := by
  simp [tied, Std.Refl.refl (r := r) a]

/-- Inserting `x` passes over no element tied with `x`. -/
theorem filter_tied_orderedInsert [IsTrans α r] (a x : α) (xs : List α) :
    (xs.orderedInsert r x).filter (tied r a) = (x :: xs).filter (tied r a) := by
  induction xs with
  | nil => rfl
  | cons y ys ih =>
    by_cases hxy : r x y
    · rw [List.orderedInsert_cons_of_le _ _ hxy]
    · rw [List.orderedInsert_of_not_le _ _ hxy]
      by_cases hx : tied r a x = true
      · have hy : tied r a y = false := by
          by_contra hy
          have hx' := of_decide_eq_true hx
          have hy' := of_decide_eq_true ((Bool.not_eq_false _).mp hy)
          exact hxy (trans_of r hx'.2 hy'.1)
        simp only [List.filter_cons, hx, hy, ih, ↓reduceIte, Bool.false_eq_true]
      · simp only [List.filter_cons, hx, ih, ↓reduceIte, Bool.false_eq_true]

theorem insertionSort_isStableSort [Std.Total r] [IsTrans α r] (xs : List α) :
    IsStableSort r xs (xs.insertionSort r) where
  perm := List.perm_insertionSort r xs
  sorted := List.pairwise_insertionSort r xs
  ties a := by
    induction xs with
    | nil => rfl
    | cons x xs ih =>
      rw [List.insertionSort_cons, filter_tied_orderedInsert]
      simp only [List.filter_cons, ih]

/-- The head of a stable sort is the first of its tie class. -/
theorem IsStableSort.head_eq [Std.Refl r] {xs ys zs : List α} {y z : α}
    (hy : IsStableSort r xs (y :: ys)) (hz : IsStableSort r xs (z :: zs)) : y = z := by
  have hyz : r y z := by
    have hm := (hz.perm.trans hy.perm.symm).subset List.mem_cons_self
    rcases List.mem_cons.mp hm with rfl | hm
    · exact Std.Refl.refl _
    · exact List.rel_of_pairwise_cons hy.sorted hm
  have hzy : r z y := by
    have hm := (hy.perm.trans hz.perm.symm).subset List.mem_cons_self
    rcases List.mem_cons.mp hm with rfl | hm
    · exact Std.Refl.refl _
    · exact List.rel_of_pairwise_cons hz.sorted hm
  have ht := (hy.ties y).trans (hz.ties y).symm
  have hz' : tied r y z = true := by simp [tied, hyz, hzy]
  rw [List.filter_cons_of_pos (tied_self y), List.filter_cons_of_pos hz'] at ht
  exact (List.cons.inj ht).1

/-- Two stable sorts of one list are the same list. -/
theorem IsStableSort.unique [Std.Refl r] {xs ys zs : List α}
    (hy : IsStableSort r xs ys) (hz : IsStableSort r xs zs) : ys = zs := by
  induction ys generalizing xs zs with
  | nil => exact (hz.perm.trans hy.perm.symm).eq_nil.symm
  | cons y ys ih =>
    cases zs with
    | nil => exact (hy.perm.trans hz.perm.symm).eq_nil
    | cons z zs =>
      obtain rfl := hy.head_eq hz
      have hp : zs.Perm ys := (hz.perm.trans hy.perm.symm).cons_inv
      -- both tails are stable sorts of the first tail
      have hys : IsStableSort r ys ys := ⟨.refl _, hy.sorted.of_cons, fun _ => rfl⟩
      have hzs : IsStableSort r ys zs := by
        refine ⟨hp, hz.sorted.of_cons, fun a => ?_⟩
        have ht := (hz.ties a).trans (hy.ties a).symm
        simp only [List.filter_cons] at ht
        split at ht
        · exact (List.cons.inj ht).2
        · exact ht
      rw [ih hys hzs]

/-- Deleting entries and sorting stably commute. -/
theorem IsStableSort.filter {xs ys : List α} (h : IsStableSort r xs ys) (keep : α → Bool) :
    IsStableSort r (xs.filter keep) (ys.filter keep) where
  perm := h.perm.filter keep
  sorted := h.sorted.filter keep
  ties a := by
    have hcomm (zs : List α) : (zs.filter keep).filter (tied r a) =
        (zs.filter (tied r a)).filter keep := by
      rw [List.filter_filter, List.filter_filter]
      simp only [Bool.and_comm]
    rw [hcomm, hcomm, h.ties a]

theorem insertionSort_filter [Std.Total r] [IsTrans α r] (keep : α → Bool) (xs : List α) :
    (xs.filter keep).insertionSort r = (xs.insertionSort r).filter keep :=
  (insertionSort_isStableSort (xs.filter keep)).unique
    ((insertionSort_isStableSort xs).filter keep)

omit [DecidableRel r] in
/-- In a sorted list the entries that come before all others are a front of it. -/
theorem filter_append_of_sorted {p : α → Bool} {zs : List α} (hsorted : zs.Pairwise r)
    (h : ∀ x ∈ zs, ∀ y ∈ zs, p x = true → p y = false → ¬ r y x) :
    zs = zs.filter p ++ zs.filter fun z => !p z := by
  induction zs with
  | nil => rfl
  | cons z zs ih =>
    obtain ⟨hz, hzs⟩ := List.pairwise_cons.mp hsorted
    have hrest := ih hzs fun x hx y hy =>
      h x (List.mem_cons_of_mem z hx) y (List.mem_cons_of_mem z hy)
    cases hp : p z with
    | true =>
      simp only [List.filter_cons, hp, if_true, Bool.not_true, Bool.false_eq_true, if_false,
        List.cons_append, ← hrest]
    | false =>
      -- nothing behind `z` comes before it
      have hnone : ∀ x ∈ zs, p x = false := by
        intro x hx
        by_contra hpx
        exact h x (List.mem_cons_of_mem z hx) z List.mem_cons_self ((Bool.not_eq_false _).mp hpx) hp
          (hz x hx)
      have hfront : (z :: zs).filter p = [] := by
        simpa [List.filter_eq_nil_iff, hp] using hnone
      have hrear : (z :: zs).filter (fun z => !p z) = z :: zs := by
        simpa [List.filter_eq_self, hp] using hnone
      rw [hfront, hrear, List.nil_append]

/-- Without two tied elements in different places the submission order does not matter. -/
theorem insertionSort_eq_of_perm [Std.Total r] [IsTrans α r] {xs ys : List α} (hp : xs.Perm ys)
    (h : ∀ a ∈ xs, ∀ b ∈ xs, r a b → r b a → a = b) :
    xs.insertionSort r = ys.insertionSort r := by
  have hsorted : (xs.insertionSort r).Perm (ys.insertionSort r) :=
    (List.perm_insertionSort r xs).trans (hp.trans (List.perm_insertionSort r ys).symm)
  apply hsorted.eq_of_pairwise _ (List.pairwise_insertionSort r xs)
    (List.pairwise_insertionSort r ys)
  intro a b ha hb
  exact h a ((List.mem_insertionSort r).mp ha) b (hp.symm.subset ((List.mem_insertionSort r).mp hb))

theorem orderedInsert_append_of_exists {x : α} {xs : List α} (ys : List α)
    (h : ∃ y ∈ xs, r x y) : (xs ++ ys).orderedInsert r x = xs.orderedInsert r x ++ ys := by
  induction xs with
  | nil => simp at h
  | cons y xs ih =>
    by_cases hy : r x y
    · simp [hy]
    · have htail : ∃ y ∈ xs, r x y := by simpa [hy] using h
      simp [hy, ih htail]

theorem orderedInsert_append_of_forall_not {x : α} {xs : List α} (ys : List α)
    (h : ∀ y ∈ xs, ¬ r x y) : (xs ++ ys).orderedInsert r x = xs ++ ys.orderedInsert r x := by
  induction xs with
  | nil => rfl
  | cons y xs ih =>
    have hy : ¬ r x y := h y List.mem_cons_self
    simp [hy, ih fun z hz => h z (List.mem_cons_of_mem y hz)]

theorem orderedInsert_of_forall {x : α} {ys : List α} (h : ∀ y ∈ ys, r x y) :
    ys.orderedInsert r x = x :: ys := by
  cases ys with
  | nil => rfl
  | cons y ys => exact List.orderedInsert_cons_of_le _ _ (h y List.mem_cons_self)

/-- `ys` holds `b` where `xs` holds `a` some places further to the front, and is `xs` besides. -/
def MovedUp (a b : α) (xs ys : List α) : Prop :=
  ∃ front passed rest, xs = front ++ a :: (passed ++ rest) ∧ ys = front ++ passed ++ b :: rest

theorem movedUp_insert [IsTrans α r] {a b : α} (hab : r a b) (xs : List α) :
    MovedUp a b (xs.orderedInsert r a) (xs.orderedInsert r b) := by
  induction xs with
  | nil => exact ⟨[], [], [], rfl, rfl⟩
  | cons x xs ih =>
    by_cases hax : r a x
    · rw [List.orderedInsert_cons_of_le _ _ hax, List.orderedInsert_eq_take_drop r b]
      refine ⟨[], (x :: xs).takeWhile fun y => ¬ r b y, (x :: xs).dropWhile fun y => ¬ r b y,
        ?_, rfl⟩
      rw [List.takeWhile_append_dropWhile, List.nil_append]
    · have hbx : ¬ r b x := fun h => hax (trans_of r hab h)
      obtain ⟨front, passed, rest, hxs, hys⟩ := ih
      exact ⟨x :: front, passed, rest, by simp [hax, hxs], by simp [hbx, hys]⟩

theorem MovedUp.orderedInsert [IsTrans α r] {a b : α} {xs ys : List α} (hab : r a b)
    (h : MovedUp a b xs ys) (hxs : xs.Pairwise r) (hys : ys.Pairwise r) (x : α) :
    MovedUp a b (xs.orderedInsert r x) (ys.orderedInsert r x) := by
  obtain ⟨front, passed, rest, rfl, rfl⟩ := h
  by_cases hfront : ∃ y ∈ front, r x y
  · refine ⟨front.orderedInsert r x, passed, rest, ?_, ?_⟩
    · exact orderedInsert_append_of_exists _ hfront
    · rw [List.append_assoc, orderedInsert_append_of_exists _ hfront, List.append_assoc]
  · have hfront' : ∀ y ∈ front, ¬ r x y := by simpa using hfront
    rw [List.append_assoc, orderedInsert_append_of_forall_not _ hfront',
      orderedInsert_append_of_forall_not _ hfront']
    have hbehind : ∀ y ∈ passed ++ rest, r a y :=
      (List.pairwise_cons.mp (List.pairwise_append.mp hxs).2.1).1
    by_cases hxa : r x a
    · -- `x` goes right behind `front` on both sides
      have hall : ∀ y ∈ passed ++ b :: rest, r x y := by
        intro y hy
        have hay : r a y := by
          simp only [List.mem_append, List.mem_cons] at hy hbehind
          rcases hy with hy | rfl | hy
          · exact hbehind y (.inl hy)
          · exact hab
          · exact hbehind y (.inr hy)
        exact trans_of r hxa hay
      rw [orderedInsert_of_forall hall, List.orderedInsert_cons_of_le _ _ hxa]
      exact ⟨front ++ [x], passed, rest, by simp, by simp⟩
    · rw [List.orderedInsert_of_not_le _ _ hxa]
      by_cases hpassed : ∃ y ∈ passed, r x y
      · rw [orderedInsert_append_of_exists _ hpassed, orderedInsert_append_of_exists _ hpassed]
        exact ⟨front, passed.orderedInsert r x, rest, rfl, by simp⟩
      · have hpassed' : ∀ y ∈ passed, ¬ r x y := by simpa using hpassed
        rw [orderedInsert_append_of_forall_not _ hpassed',
          orderedInsert_append_of_forall_not _ hpassed']
        by_cases hxb : r x b
        · -- what ranks behind `b` ranks behind `x`
          have hrest : ∀ y ∈ rest, r x y := by
            intro y hy
            have hby : r b y :=
              (List.pairwise_cons.mp (List.pairwise_append.mp hys).2.1).1 y hy
            exact trans_of r hxb hby
          rw [orderedInsert_of_forall hrest, List.orderedInsert_cons_of_le _ _ hxb]
          exact ⟨front, passed ++ [x], rest, by simp, by simp⟩
        · rw [List.orderedInsert_of_not_le _ _ hxb]
          exact ⟨front, passed, rest.orderedInsert r x, rfl, by simp⟩

/-- An entry replaced by one that ranks no later moves up in the ranking, and nothing else
moves. -/
theorem insertionSort_movedUp [Std.Total r] [IsTrans α r] {a b : α} (hab : r a b)
    (before after : List α) :
    MovedUp a b ((before ++ a :: after).insertionSort r)
      ((before ++ b :: after).insertionSort r) := by
  induction before with
  | nil => exact movedUp_insert hab _
  | cons x before ih =>
    exact ih.orderedInsert hab (List.pairwise_insertionSort r _)
      (List.pairwise_insertionSort r _) x

end StableSort
