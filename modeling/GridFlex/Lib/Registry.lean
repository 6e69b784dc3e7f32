import Mathlib

/-! An array of callbacks from which handles remove entries in place while it is iterated: whom a
notification reaches. -/
namespace Registry

variable {α : Type*}

/-- `entries.forEach` on an array that `react` shortens: with the length read once, `count` indices
are left from `index` on, and those past the end are passed over. The entries called come first,
then those that remain. -/
def forEach (react : α → List α → List α) : ℕ → ℕ → List α → List α × List α
  | 0, _, entries => ([], entries)
  | count + 1, index, entries =>
      match entries[index]? with
      | none => forEach react count (index + 1) entries
      | some c =>
          let r := forEach react count (index + 1) (react c entries)
          (c :: r.1, r.2)

/-- Only entries from the index on are called, each once and in order. -/
theorem forEach_sublist {react : α → List α → List α}
    (hreact : ∀ c entries, (react c entries).Sublist entries) (count index : ℕ)
    (entries : List α) :
    (forEach react count index entries).1.Sublist (entries.drop index) := by
  induction count generalizing index entries with
  | zero => exact List.nil_sublist _
  | succ count ih =>
    cases hc : entries[index]? with
    | none =>
      have hend : entries.drop (index + 1) = [] := by
        rw [List.getElem?_eq_none_iff] at hc
        exact List.drop_of_length_le (by omega)
      have hrest := ih (index + 1) entries
      rw [hend] at hrest
      simp only [forEach, hc]
      exact hrest.trans (List.nil_sublist _)
    | some c =>
      obtain ⟨hlt, rfl⟩ := List.getElem?_eq_some_iff.mp hc
      have hrest := (ih (index + 1) _).trans ((hreact entries[index] entries).drop (index + 1))
      simp only [forEach, hc]
      rw [List.drop_eq_getElem_cons hlt]
      exact hrest.cons_cons _

/-- Every entry is called whose handle no entry called before its turn has called. -/
def Notified (handles : α → List α) (registered calls : List α) : Prop :=
  ∀ c ∈ registered, (∀ b ∈ calls, [b, c].Sublist registered → c ∉ handles b) → c ∈ calls

variable {handles : α → List α}

/-- An entry at the front that is passed over has been wronged. -/
theorem not_notified_head {x : α} {pending calls : List α} (hn : (x :: pending).Nodup)
    (hcalls : calls.Sublist pending) : ¬Notified handles (x :: pending) calls := by
  have hx : x ∉ pending := (List.nodup_cons.mp hn).1
  intro h
  refine hx (hcalls.subset (h x List.mem_cons_self ?_))
  intro b hb hsub
  have hbehind : [b, x].Sublist pending := by
    cases hsub with
    | cons _ hsub => exact hsub
    | cons_cons _ hsub => exact absurd (hcalls.subset hb) hx
  exact absurd (hbehind.subset (by simp)) hx

section Without

variable [DecidableEq α]

/-- The entries that are not in `gone`. -/
def without (gone entries : List α) : List α := entries.filter fun x => x ∉ gone

@[simp] theorem mem_without {gone entries : List α} {x : α} :
    x ∈ without gone entries ↔ x ∈ entries ∧ x ∉ gone := by
  simp [without]

theorem without_cons_of_mem {gone : List α} {c : α} (h : c ∈ gone) (entries : List α) :
    without gone (c :: entries) = without gone entries := by
  simp [without, h]

theorem without_cons_of_notMem {gone : List α} {c : α} (h : c ∉ gone) (entries : List α) :
    without gone (c :: entries) = c :: without gone entries := by
  simp [without, h]

theorem without_append (gone entries entries' : List α) :
    without gone (entries ++ entries') = without gone entries ++ without gone entries' :=
  List.filter_append _ _

theorem without_without (gone gone' entries : List α) :
    without gone' (without gone entries) = without (gone ++ gone') entries := by
  unfold without
  rw [List.filter_filter]
  refine List.filter_congr fun x _ => ?_
  by_cases hx : x ∈ gone
  · simp [hx]
  · simp [hx]

theorem without_sublist (gone entries : List α) : (without gone entries).Sublist entries :=
  List.filter_sublist

theorem without_eq_self {gone entries : List α} (h : ∀ x ∈ gone, x ∉ entries) :
    without gone entries = entries := by
  unfold without
  rw [List.filter_eq_self]
  intro x hx
  exact decide_eq_true fun hgone => h x hgone hx

theorem length_without_lt {gone entries : List α} {x : α} (hx : x ∈ entries) (hgone : x ∈ gone) :
    (without gone entries).length < entries.length :=
  List.length_filter_lt_length_iff_exists.mpr ⟨x, hx, by simpa using hgone⟩

theorem pair_sublist_without {gone entries : List α} {b c : α} (hb : b ∉ gone) (hc : c ∉ gone)
    (h : [b, c].Sublist entries) : [b, c].Sublist (without gone entries) := by
  have hkept := h.filter fun x => x ∉ gone
  simpa [hb, hc, without] using hkept

end Without

variable [DecidableEq α]

/-- After the first entry has had its turn, the others are owed what they would be owed in a
notification without the entries that it removes. -/
theorem notified_cons {c : α} {pending calls : List α} (hc : c ∉ pending)
    (hcalls : ∀ b ∈ calls, b ∈ without (handles c) pending) :
    Notified handles (c :: pending) (c :: calls) ↔
      Notified handles (without (handles c) pending) calls := by
  constructor
  · intro h x hx hx'
    obtain ⟨hpending, hkept⟩ := mem_without.mp hx
    have hne : x ≠ c := fun he => hc (he ▸ hpending)
    refine List.mem_of_ne_of_mem hne (h x (List.mem_cons_of_mem c hpending) ?_)
    intro b hb hsub
    rcases List.mem_cons.mp hb with rfl | hb
    · exact hkept
    · obtain ⟨hbpending, hbkept⟩ := mem_without.mp (hcalls b hb)
      have hbehind : [b, x].Sublist pending := by
        cases hsub with
        | cons _ hsub => exact hsub
        | cons_cons _ hsub => exact absurd hbpending hc
      exact hx' b hb (pair_sublist_without hbkept hkept hbehind)
  · intro h x hx hx'
    rcases List.mem_cons.mp hx with rfl | hpending
    · exact List.mem_cons_self
    · have hkept : x ∉ handles c :=
        hx' c List.mem_cons_self ((List.singleton_sublist.mpr hpending).cons_cons c)
      refine List.mem_cons_of_mem c (h x (mem_without.mpr ⟨hpending, hkept⟩) ?_)
      intro b hb hsub
      exact hx' b (List.mem_cons_of_mem c hb) ((hsub.trans (without_sublist _ _)).cons c)

variable (handles)

/-- The callback calls its handles one after another. -/
def removeAll (c : α) (entries : List α) : List α := (handles c).foldl List.erase entries

/-- No entry that gets its turn removes itself or one that is still registered in front of it,
unless nothing behind it is left. `gone` are the entries whose handles have been called, `front`
those that have had their turn. -/
def Orderly : List α → List α → List α → Prop
  | _, _, [] => True
  | gone, front, c :: pending =>
      if c ∈ gone then Orderly gone front pending
      else (without (gone ++ handles c) pending = [] ∨ ∀ x ∈ handles c, x ∉ front ++ [c]) ∧
        Orderly (gone ++ handles c) (front ++ [c]) pending

variable {handles}

theorem removeAll_eq_without {c : α} {entries : List α} (h : entries.Nodup) :
    removeAll handles c entries = without (handles c) entries := by
  rw [removeAll, ← List.diff_eq_foldl, h.sdiff_eq_filter]
  rfl

theorem removeAll_sublist (c : α) (entries : List α) :
    (removeAll handles c entries).Sublist entries := by
  rw [removeAll, ← List.diff_eq_foldl]
  exact List.diff_sublist entries (handles c)

theorem orderly_of_gone {gone front pending : List α} (h : without gone pending = []) :
    Orderly handles gone front pending := by
  induction pending with
  | nil => trivial
  | cons c pending ih =>
    by_cases hc : c ∈ gone
    · rw [Orderly, if_pos hc]
      exact ih (by rwa [without_cons_of_mem hc] at h)
    · rw [without_cons_of_notMem hc] at h
      exact absurd h (List.cons_ne_nil _ _)

/-- The entry at the index is called, and the loop goes on behind it. -/
theorem forEach_turn {c : α} {front pending : List α} (count : ℕ)
    (hn : (front ++ c :: pending).Nodup) :
    (forEach (removeAll handles) (count + 1) front.length (front ++ c :: pending)).1 =
      c :: (forEach (removeAll handles) count (front.length + 1)
        (without (handles c) (front ++ [c]) ++ without (handles c) pending)).1 := by
  have hc : (front ++ c :: pending)[front.length]? = some c := by simp
  have hsplit : front ++ c :: pending = (front ++ [c]) ++ pending := by simp
  simp only [forEach, hc]
  rw [removeAll_eq_without hn, hsplit, without_append]

/-- Behind the entry that has had its turn, the loop calls only entries that are left, and as many
of these as have gone in front of them are passed over. -/
theorem forEach_rest_sublist (count : ℕ) (c : α) (front left : List α) :
    (forEach (removeAll handles) count (front.length + 1)
        (without (handles c) (front ++ [c]) ++ left)).1.Sublist
      (left.drop (front.length + 1 - (without (handles c) (front ++ [c])).length)) := by
  have hsub := forEach_sublist (@removeAll_sublist _ handles _) count (front.length + 1)
    (without (handles c) (front ++ [c]) ++ left)
  have hlength : (without (handles c) (front ++ [c])).length ≤ front.length + 1 := by
    simpa using (without_sublist (handles c) (front ++ [c])).length_le
  rwa [List.drop_append, List.drop_of_length_le hlength, List.nil_append] at hsub

theorem notified_iff {gone front pending : List α} {count : ℕ}
    (hcount : (without gone pending).length ≤ count)
    (hn : (front ++ without gone pending).Nodup) :
    Notified handles (without gone pending)
        (forEach (removeAll handles) count front.length (front ++ without gone pending)).1 ↔
      Orderly handles gone front pending := by
  induction pending generalizing gone front count with
  | nil => exact iff_of_true (fun _ hc => absurd hc List.not_mem_nil) trivial
  | cons c pending ih =>
    by_cases hgone : c ∈ gone
    · rw [without_cons_of_mem hgone] at hcount hn ⊢
      rw [Orderly, if_pos hgone]
      exact ih hcount hn
    · rw [without_cons_of_notMem hgone] at hcount hn ⊢
      rw [List.length_cons] at hcount
      obtain ⟨count, rfl⟩ : ∃ n, count = n + 1 := Nat.exists_eq_succ_of_ne_zero (by omega)
      have hc : c ∉ without gone pending := (List.nodup_cons.mp (List.nodup_append.mp hn).2.1).1
      have hsplit : front ++ c :: without gone pending =
          (front ++ [c]) ++ without gone pending := by simp
      have hcalls := @forEach_rest_sublist _ handles _ count c front
        (without (handles c) (without gone pending))
      rw [Orderly, if_neg hgone, forEach_turn count hn,
        notified_cons hc fun b hb => (hcalls.trans (List.drop_sublist _ _)).subset hb]
      rw [hsplit] at hn
      rw [without_without] at hcalls ⊢
      by_cases hbehind : ∀ x ∈ handles c, x ∉ front ++ [c]
      · -- nothing moves: the next entry is found at the next index
        have hleft := (without_sublist (handles c) (without gone pending)).length_le
        rw [without_without] at hleft
        rw [without_eq_self hbehind, and_iff_right (Or.inr hbehind)]
        have hlength : front.length + 1 = (front ++ [c]).length := by simp
        rw [hlength]
        refine ih (by omega) ?_
        rw [← without_without]
        exact hn.sublist ((without_sublist _ _).append_left _)
      · have hlt : (without (handles c) (front ++ [c])).length < front.length + 1 := by
          have hmoved := hbehind
          push Not at hmoved
          obtain ⟨x, hx, hfront⟩ := hmoved
          simpa using length_without_lt hfront hx
        cases hleft : without (gone ++ handles c) pending with
        | nil =>
          refine iff_of_true (fun _ hc => absurd hc List.not_mem_nil) ?_
          exact ⟨Or.inl rfl, orderly_of_gone hleft⟩
        | cons x left =>
          -- the index has moved past the next entry
          rw [hleft] at hcalls
          have hpassed : (forEach (removeAll handles) count (front.length + 1)
              (without (handles c) (front ++ [c]) ++ x :: left)).1.Sublist left := by
            obtain ⟨k, hk⟩ : ∃ k, front.length + 1 -
                (without (handles c) (front ++ [c])).length = k + 1 :=
              Nat.exists_eq_succ_of_ne_zero (by omega)
            rw [hk, List.drop_succ_cons] at hcalls
            exact hcalls.trans (List.drop_sublist _ _)
          have hnodup : (x :: left).Nodup := by
            rw [← hleft, ← without_without]
            exact (List.nodup_append.mp hn).2.1.sublist (without_sublist _ _)
          refine iff_of_false (not_notified_head hnodup hpassed) ?_
          rintro ⟨hnil | hall, -⟩
          · exact List.cons_ne_nil _ _ hnil
          · exact hbehind hall

/-- A notification reaches everyone it owes exactly when its callbacks remove in an orderly way. -/
theorem forEach_notified_iff {entries : List α} (hn : entries.Nodup) :
    Notified handles entries (forEach (removeAll handles) entries.length 0 entries).1 ↔
      Orderly handles [] [] entries := by
  have hall : without [] entries = entries := without_eq_self (by simp)
  have h : Notified handles (without [] entries) (forEach (removeAll handles) entries.length
      ([] : List α).length ([] ++ without [] entries)).1 ↔ Orderly handles [] [] entries := by
    apply notified_iff
    · rw [hall]
    · rwa [hall]
  rwa [hall] at h

end Registry
