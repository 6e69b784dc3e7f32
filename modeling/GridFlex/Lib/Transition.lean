import Mathlib

/-! Runs of a deterministic labelled machine: invariants, conditions on every step of a run,
and the history that a run leaves behind. -/
namespace Transition

variable {σ α β : Type*} (step : σ → α → σ)

/-- The state after the labels of `as`, in order. -/
def run (s : σ) (as : List α) : σ := as.foldl step s

@[simp] theorem run_nil (s : σ) : run step s [] = s := rfl

@[simp] theorem run_cons (s : σ) (a : α) (as : List α) :
    run step s (a :: as) = run step (step s a) as := rfl

theorem run_append (s : σ) (as bs : List α) :
    run step s (as ++ bs) = run step (run step s as) bs := List.foldl_append

theorem run_concat (s : σ) (as : List α) (a : α) :
    run step s (as ++ [a]) = step (run step s as) a := run_append step s as [a]

/-- Every label of `as` meets `P` in the state it is taken from. -/
def Along (P : σ → α → Prop) (s : σ) (as : List α) : Prop :=
  ∀ before a after, as = before ++ a :: after → P (run step s before) a

variable {step}

theorem along_nil (P : σ → α → Prop) (s : σ) : Along step P s [] := by
  intro before a after h
  simp at h

theorem along_cons {P : σ → α → Prop} {s : σ} {a : α} {as : List α} :
    Along step P s (a :: as) ↔ P s a ∧ Along step P (step s a) as := by
  constructor
  · intro h
    refine ⟨h [] a as rfl, ?_⟩
    intro before b after hs
    exact h (a :: before) b after (by rw [hs, List.cons_append])
  · rintro ⟨ha, h⟩ before b after hs
    cases before with
    | nil =>
      obtain ⟨rfl, -⟩ := List.cons.inj hs
      exact ha
    | cons c before =>
      obtain ⟨rfl, hs'⟩ := List.cons.inj hs
      exact h before b after hs'

instance Along.instDecidable {P : σ → α → Prop} [∀ s a, Decidable (P s a)] :
    (s : σ) → (as : List α) → Decidable (Along step P s as)
  | s, [] => isTrue (along_nil P s)
  | s, a :: as =>
      have := Along.instDecidable (P := P) (step s a) as
      decidable_of_iff (P s a ∧ Along step P (step s a) as) along_cons.symm

theorem along_concat {P : σ → α → Prop} {s : σ} {as : List α} {a : α} :
    Along step P s (as ++ [a]) ↔ Along step P s as ∧ P (run step s as) a := by
  constructor
  · intro h
    refine ⟨?_, h as a [] rfl⟩
    intro before b after hs
    exact h before b (after ++ [a]) (by simp [hs])
  · rintro ⟨h, ha⟩ before b after hs
    rcases List.eq_nil_or_concat after with rfl | ⟨after', b', rfl⟩
    · obtain ⟨rfl, he⟩ := List.append_inj' hs rfl
      cases he
      exact ha
    · have hs' : as ++ [a] = (before ++ b :: after') ++ [b'] := by simpa using hs
      obtain ⟨rfl, -⟩ := List.append_inj' hs' rfl
      exact h before b after' rfl

theorem Along.of_append {P : σ → α → Prop} {s : σ} {as bs : List α}
    (h : Along step P s (as ++ bs)) : Along step P s as := by
  intro before a after hs
  exact h before a (after ++ bs) (by simp [hs])

theorem along_append {P : σ → α → Prop} {s : σ} {as bs : List α} :
    Along step P s (as ++ bs) ↔ Along step P s as ∧ Along step P (run step s as) bs := by
  induction as generalizing s with
  | nil => simp [along_nil]
  | cons a as ih => rw [List.cons_append, along_cons, along_cons, ih, run_cons, and_assoc]

theorem Along.mono {P Q : σ → α → Prop} {s : σ} {as : List α} (h : Along step P s as)
    (hPQ : ∀ s a, P s a → Q s a) : Along step Q s as :=
  fun before a after hs => hPQ _ _ (h before a after hs)

/-- A property that every step meeting `P` preserves holds after a run whose steps meet `P`. -/
theorem run_invariant_along {I : σ → Prop} {P : σ → α → Prop}
    (hstep : ∀ s a, I s → P s a → I (step s a)) {s : σ} (hs : I s) {as : List α}
    (h : Along step P s as) : I (run step s as) := by
  induction as using List.reverseRecOn with
  | nil => exact hs
  | append_singleton as a ih =>
    obtain ⟨has, ha⟩ := along_concat.mp h
    rw [run_concat]
    exact hstep _ a (ih has) ha

theorem run_invariant {I : σ → Prop} (hstep : ∀ s a, I s → I (step s a)) {s : σ} (hs : I s)
    (as : List α) : I (run step s as) :=
  run_invariant_along (P := fun _ _ => True) (fun s a h _ => hstep s a h) hs
    fun _ _ _ _ => trivial

/-- Two conditions that agree wherever the invariant holds pick out the same runs, as long as
the steps that meet them keep the invariant. -/
theorem along_congr {I : σ → Prop} {P Q : σ → α → Prop}
    (hstep : ∀ s a, I s → P s a → I (step s a)) (hPQ : ∀ s a, I s → (P s a ↔ Q s a)) {s : σ}
    (hs : I s) (as : List α) : Along step P s as ↔ Along step Q s as := by
  induction as using List.reverseRecOn with
  | nil => exact ⟨fun _ => along_nil Q s, fun _ => along_nil P s⟩
  | append_singleton as a ih =>
    rw [along_concat, along_concat, ← ih]
    refine and_congr_right fun has => ?_
    have hrun : I (run step s as) := run_invariant_along hstep hs has
    exact hPQ _ a hrun

/-- When `P` says exactly which steps keep `I`, a run stays in `I` if and only if all its steps
meet `P`. -/
theorem forall_prefix_iff_along {J I : σ → Prop} {P : σ → α → Prop}
    (hJ : ∀ s a, J s → J (step s a)) (hstep : ∀ s a, J s → I s → (I (step s a) ↔ P s a)) {s : σ}
    (hs : J s) (hI : I s) (as : List α) :
    (∀ before after, as = before ++ after → I (run step s before)) ↔ Along step P s as := by
  constructor
  · intro h before a after has
    have hj : J (run step s before) := run_invariant hJ hs before
    have hi : I (run step s before) := h before (a :: after) has
    apply (hstep _ a hj hi).mp
    rw [← run_concat step s before a]
    exact h (before ++ [a]) after (by simpa using has)
  · intro h before after has
    have hb : Along step P s before := Along.of_append (has ▸ h)
    have hji : J (run step s before) ∧ I (run step s before) :=
      run_invariant_along (I := fun s => J s ∧ I s)
        (fun s a hji hp => ⟨hJ s a hji.1, (hstep s a hji.1 hji.2).mpr hp⟩) ⟨hs, hI⟩ hb
    exact hji.2

variable (step)

/-- The outputs of a run, oldest first. -/
def emitted (emit : σ → α → List β) : σ → List α → List β
  | _, [] => []
  | s, a :: as => emit s a ++ emitted emit (step s a) as

variable {step}

theorem emitted_append (emit : σ → α → List β) (s : σ) (as bs : List α) :
    emitted step emit s (as ++ bs) =
      emitted step emit s as ++ emitted step emit (run step s as) bs := by
  induction as generalizing s with
  | nil => rfl
  | cons a as ih => simp only [List.cons_append, emitted, ih, run_cons, List.append_assoc]

theorem emitted_concat (emit : σ → α → List β) (s : σ) (as : List α) (a : α) :
    emitted step emit s (as ++ [a]) = emitted step emit s as ++ emit (run step s as) a := by
  rw [emitted_append]
  simp [emitted]

/-- The machine that keeps what its steps emit next to its state. -/
def recorded (step : σ → α → σ) (emit : σ → α → List β) (s : σ × List β) (a : α) : σ × List β :=
  (step s.1 a, s.2 ++ emit s.1 a)

theorem run_recorded (emit : σ → α → List β) (s : σ × List β) (as : List α) :
    (run (recorded step emit) s as).1 = run step s.1 as := by
  induction as generalizing s with
  | nil => rfl
  | cons a as ih => exact ih (recorded step emit s a)

/-- A relation between state and history that every step preserves holds after every run. -/
theorem run_history {emit : σ → α → List β} {J : σ → List β → Prop}
    (hstep : ∀ s past a, J s past → J (step s a) (past ++ emit s a)) {s : σ} (hs : J s [])
    (as : List α) : J (run step s as) (emitted step emit s as) := by
  induction as using List.reverseRecOn with
  | nil => exact hs
  | append_singleton as a ih =>
    rw [run_concat, emitted_concat]
    exact hstep _ _ a ih

/-- A relation that each step keeps, against the labels it stands for on the other side, holds
after every run. -/
theorem run_simulation {τ : Type*} {step' : τ → β → τ} {R : σ → τ → Prop} {image : σ → α → List β}
    (hstep : ∀ s t a, R s t → R (step s a) (run step' t (image s a))) {s : σ} {t : τ} (h : R s t)
    (as : List α) : R (run step s as) (run step' t (emitted step image s as)) := by
  induction as generalizing s t with
  | nil => exact h
  | cons a as ih =>
    rw [run_cons, emitted, run_append]
    exact ih (hstep s t a h)

/-- A relation that two machines keep under every label holds after the same labels. -/
theorem run_lockstep {τ : Type*} {step' : τ → α → τ} {R : σ → τ → Prop}
    (hstep : ∀ s t a, R s t → R (step s a) (step' t a)) {s : σ} {t : τ} (h : R s t)
    (as : List α) : R (run step s as) (run step' t as) := by
  induction as generalizing s t with
  | nil => exact h
  | cons a as ih => exact ih (hstep s t a h)

/-- Two machines that keep a relation under every label leave the same history behind, if what
they emit in related states is the same. -/
theorem emitted_lockstep {τ : Type*} {step' : τ → α → τ} {R : σ → τ → Prop}
    {emit : σ → α → List β} {emit' : τ → α → List β}
    (hstep : ∀ s t a, R s t → R (step s a) (step' t a))
    (hemit : ∀ s t a, R s t → emit s a = emit' t a) {s : σ} {t : τ} (h : R s t) (as : List α) :
    emitted step emit s as = emitted step' emit' t as := by
  induction as generalizing s t with
  | nil => rfl
  | cons a as ih => rw [emitted, emitted, hemit s t a h, ih (hstep s t a h)]

theorem run_map {γ : Type*} (f : γ → α) (s : σ) (cs : List γ) :
    run step s (cs.map f) = run (fun s c => step s (f c)) s cs := List.foldl_map

theorem emitted_map {γ : Type*} (f : γ → α) (emit : σ → α → List β) (s : σ) (cs : List γ) :
    emitted step emit s (cs.map f) =
      emitted (fun s c => step s (f c)) (fun s c => emit s (f c)) s cs := by
  induction cs generalizing s with
  | nil => rfl
  | cons c cs ih => rw [List.map_cons, emitted, emitted, ih]

/-- What each step only moves is neither lost nor doubled in a run: what is held at the end and
what was given away is what was held at the start and what came in. -/
theorem run_conserved {γ : Type*} {I : σ → Prop} (hI : ∀ s a, I s → I (step s a))
    {held : σ → List γ} {given received : σ → α → List γ}
    (hstep : ∀ s a, I s → (held (step s a) ++ given s a).Perm (held s ++ received s a)) {s : σ}
    (hs : I s) (as : List α) :
    (held (run step s as) ++ emitted step given s as).Perm
      (held s ++ emitted step received s as) := by
  induction as generalizing s with
  | nil => exact List.Perm.refl _
  | cons a as ih =>
    have hrest := ih (hI s a hs)
    have hmove := hstep s a hs
    rw [← Multiset.coe_eq_coe] at hrest hmove ⊢
    simp only [run_cons, emitted, ← Multiset.coe_add] at hrest hmove ⊢
    rw [add_left_comm, hrest, add_left_comm, ← add_assoc, hmove, add_assoc]

theorem emitted_filter (keep : α → Bool) (s : σ) (as : List α) :
    emitted step (fun _ a => if keep a then [a] else []) s as = as.filter keep := by
  induction as generalizing s with
  | nil => rfl
  | cons a as ih =>
    cases hk : keep a with
    | true => simp [emitted, ih, hk]
    | false => simp [emitted, ih, hk]

theorem mem_emitted {emit : σ → α → List β} {s : σ} {as : List α} {b : β}
    (h : b ∈ emitted step emit s as) :
    ∃ before a after, as = before ++ a :: after ∧ b ∈ emit (run step s before) a := by
  induction as generalizing s with
  | nil => cases h
  | cons a as ih =>
    rcases List.mem_append.mp h with hhead | htail
    · exact ⟨[], a, as, rfl, hhead⟩
    · obtain ⟨before, a', after, rfl, hb⟩ := ih htail
      exact ⟨a :: before, a', after, rfl, hb⟩

/-- Outputs that each step takes from its label come in the order of the labels. -/
theorem emitted_sublist {γ : Type*} {emit : σ → α → List β} {f : β → Option γ} {g : α → Option γ}
    (h : ∀ s a, ((emit s a).filterMap f).Sublist (g a).toList) (s : σ) (as : List α) :
    ((emitted step emit s as).filterMap f).Sublist (as.filterMap g) := by
  induction as generalizing s with
  | nil => exact List.Sublist.refl _
  | cons a as ih =>
    have hcons : (a :: as).filterMap g = (g a).toList ++ as.filterMap g := by
      cases hg : g a <;> simp [hg]
    rw [emitted, List.filterMap_append, hcons]
    exact (h s a).append (ih (step s a))

end Transition
