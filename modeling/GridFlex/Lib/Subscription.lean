import GridFlex.Lib.Transition

/-! Subscriptions that are ended through handles, where a handle removes an entry by the identity
of its callback and not by its subscription. -/
namespace Subscription
open Transition

variable {ρ α : Type*}

/-- What is done with a party: `call i` calls the handle that the `i`-th `subscribe` returned. -/
inductive Use (α : Type*) where
  | subscribe (c : α)
  | call (i : ℕ)

/-- A party with the handles that it has given out, each by its callback and whether it has been
called. -/
structure Session (ρ α : Type*) where
  party : ρ
  handles : List (α × Bool)

variable (subscribe unsubscribe : ρ → α → ρ)

def step (s : Session ρ α) : Use α → Session ρ α
  | .subscribe c => ⟨subscribe s.party c, s.handles ++ [(c, false)]⟩
  | .call i =>
      match s.handles[i]? with
      | none => s
      | some (c, _) => ⟨unsubscribe s.party c, s.handles.set i (c, true)⟩

/-- The handle has not been called, or no subscription of its callback is left. -/
def Fresh (s : Session ρ α) (u : Use α) : Prop :=
  ∀ i c, u = .call i → s.handles[i]? = some (c, true) → (c, false) ∉ s.handles

variable [DecidableEq α] (entries : ρ → List α)

/-- Every callback is registered once for each of its subscriptions whose handle is uncalled. -/
def Accounted (s : Session ρ α) : Prop :=
  ∀ c, (entries s.party).count c = s.handles.count (c, false)

variable {subscribe unsubscribe entries}

theorem accounted_subscribe (hsub : ∀ p c, entries (subscribe p c) = entries p ++ [c])
    {s : Session ρ α} (h : Accounted entries s) (c : α) :
    Accounted entries (step subscribe unsubscribe s (.subscribe c)) := by
  intro b
  have hcount := h b
  simp only [step, hsub, List.count_append, hcount]
  by_cases hb : c = b
  · simp [hb]
  · simp [hb]

/-- A handle that is called for the first time ends its own subscription. -/
theorem accounted_call {s : Session ρ α} (hunsub : ∀ p c, entries (unsubscribe p c) =
    (entries p).erase c) (h : Accounted entries s) {i : ℕ} {c : α}
    (hi : s.handles[i]? = some (c, false)) :
    Accounted entries (step subscribe unsubscribe s (.call i)) := by
  obtain ⟨hlt, hget⟩ := List.getElem?_eq_some_iff.mp hi
  intro b
  have hcount := h b
  simp only [step, hi, hunsub]
  rw [List.count_set hlt, hget, List.count_erase, hcount]
  by_cases hb : c = b
  · simp [hb]
  · simp [hb]

/-- A handle that is called again ends another subscription of its callback, if there is one. -/
theorem accounted_recall_iff {s : Session ρ α} (hunsub : ∀ p c, entries (unsubscribe p c) =
    (entries p).erase c) (h : Accounted entries s) {i : ℕ} {c : α}
    (hi : s.handles[i]? = some (c, true)) :
    Accounted entries (step subscribe unsubscribe s (.call i)) ↔ (c, false) ∉ s.handles := by
  obtain ⟨hlt, hget⟩ := List.getElem?_eq_some_iff.mp hi
  have hset : s.handles.set i (c, true) = s.handles := by
    rw [← hget, List.set_getElem_self]
  rw [← List.count_eq_zero, ← h c, List.count_eq_zero]
  constructor
  · intro hstep hmem
    have hcount := hstep c
    simp only [step, hi, hunsub, hset, ← h c, List.count_erase_self] at hcount
    have hpos := List.count_pos_iff.mpr hmem
    omega
  · intro hmem b
    simp only [step, hi, hunsub, hset, List.erase_of_not_mem hmem]
    exact h b

theorem accounted_step_iff (hsub : ∀ p c, entries (subscribe p c) = entries p ++ [c])
    (hunsub : ∀ p c, entries (unsubscribe p c) = (entries p).erase c) {s : Session ρ α}
    (h : Accounted entries s) (u : Use α) :
    Accounted entries (step subscribe unsubscribe s u) ↔ Fresh s u := by
  cases u with
  | subscribe c =>
    exact iff_of_true (accounted_subscribe hsub h c) fun i b hu => nomatch hu
  | call i =>
    cases hi : s.handles[i]? with
    | none =>
      refine iff_of_true (by simpa only [step, hi] using h) ?_
      intro j b hu hj
      cases hu
      rw [hi] at hj
      cases hj
    | some handle =>
      obtain ⟨c, called⟩ := handle
      cases called with
      | false =>
        refine iff_of_true (accounted_call hunsub h hi) ?_
        intro j b hu hj
        cases hu
        rw [hi] at hj
        cases hj
      | true =>
        rw [accounted_recall_iff hunsub h hi]
        constructor
        · intro hnone j b hu hj
          cases hu
          rw [hi] at hj
          cases hj
          exact hnone
        · exact fun hfresh => hfresh i c rfl hi

/-- The registrations are accounted for all along a session exactly when no handle is called again
while another subscription of its callback is left. -/
theorem accounted_along_iff (hsub : ∀ p c, entries (subscribe p c) = entries p ++ [c])
    (hunsub : ∀ p c, entries (unsubscribe p c) = (entries p).erase c) {p : ρ}
    (hp : entries p = []) (uses : List (Use α)) :
    (∀ before after, uses = before ++ after →
        Accounted entries (run (step subscribe unsubscribe) ⟨p, []⟩ before)) ↔
      Along (step subscribe unsubscribe) Fresh ⟨p, []⟩ uses := by
  have hstart : Accounted entries (⟨p, []⟩ : Session ρ α) := by
    intro c
    rw [hp]
    rfl
  exact forall_prefix_iff_along (J := fun _ => True) (I := Accounted entries) (P := Fresh)
    (fun _ _ _ => trivial) (fun s u _ h => accounted_step_iff hsub hunsub h u) trivial hstart uses

end Subscription
