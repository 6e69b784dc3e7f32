import GridFlex.Lib.Transition

/-! A labelled relation as a specification, by the words that it reads. A machine implements it
exactly if the words that its runs emit are the words that the relation reads. -/
namespace Language
open Transition

variable {σ τ α β : Type*} (next : τ → β → τ → Prop)

/-- From one state to another along the letters of a word. -/
inductive Reads : τ → List β → τ → Prop where
  | nil (t : τ) : Reads t [] t
  | cons {t t' t'' : τ} {b : β} {w : List β} (h : next t b t') (hw : Reads t' w t'') :
      Reads t (b :: w) t''

/-- The words that can be read from a state. -/
def words (t : τ) : Set (List β) := {w | ∃ t', Reads next t w t'}

variable {next}

theorem Reads.append {t t' t'' : τ} {w w' : List β} (h : Reads next t w t')
    (h' : Reads next t' w' t'') : Reads next t (w ++ w') t'' := by
  induction h with
  | nil t => exact h'
  | cons hb _ ih => exact .cons hb (ih h')

theorem Reads.singleton {t t' : τ} {b : β} (h : next t b t') : Reads next t [b] t' :=
  .cons h (.nil t')

variable (next)

/-- What the machine emits in one step can be read, and what can be read can be emitted. -/
structure Implements (step : σ → α → σ) (emit : σ → α → List β) (R : σ → τ → Prop) : Prop where
  sound : ∀ s t a, R s t → ∃ t', Reads next t (emit s a) t' ∧ R (step s a) t'
  complete : ∀ s t b t', R s t → next t b t' → ∃ a, emit s a = [b] ∧ R (step s a) t'

variable {next} {step : σ → α → σ} {emit : σ → α → List β} {R : σ → τ → Prop}

theorem Implements.reads_emitted (h : Implements next step emit R) {s : σ} {t : τ} (hR : R s t)
    (as : List α) : ∃ t', Reads next t (emitted step emit s as) t' ∧ R (run step s as) t' := by
  induction as generalizing s t with
  | nil => exact ⟨t, .nil t, hR⟩
  | cons a as ih =>
    obtain ⟨t', hw, hR'⟩ := h.sound s t a hR
    obtain ⟨t'', hw', hR''⟩ := ih hR'
    exact ⟨t'', hw.append hw', hR''⟩

theorem Implements.emits_read (h : Implements next step emit R) {s : σ} {t t' : τ} {w : List β}
    (hR : R s t) (hw : Reads next t w t') :
    ∃ as, emitted step emit s as = w ∧ R (run step s as) t' := by
  induction hw generalizing s with
  | nil t => exact ⟨[], rfl, hR⟩
  | cons hb _ ih =>
    obtain ⟨a, hemit, hR'⟩ := h.complete s _ _ _ hR hb
    obtain ⟨as, hemits, hR''⟩ := ih hR'
    refine ⟨a :: as, ?_, hR''⟩
    rw [emitted, hemit, hemits]
    rfl

/-- The words of an implementation are those of the specification. -/
theorem Implements.range_emitted (h : Implements next step emit R) {s : σ} {t : τ} (hR : R s t) :
    Set.range (emitted step emit s) = words next t := by
  ext w
  constructor
  · rintro ⟨as, rfl⟩
    obtain ⟨t', hw, -⟩ := h.reads_emitted hR as
    exact ⟨t', hw⟩
  · rintro ⟨t', hw⟩
    obtain ⟨as, hemits, -⟩ := h.emits_read hR hw
    exact ⟨as, hemits⟩

end Language
