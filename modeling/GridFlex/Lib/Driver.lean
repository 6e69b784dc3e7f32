import Mathlib

/-! One task run from await to await by an environment that serves each of them: what it
leaves behind, that it comes to an end, and the rule for reasoning about it. -/
namespace Driver

variable {σ ε κ ρ : Type*}

/-- `left` is the await at which the fuel ran out. -/
structure Outcome (σ ε κ : Type*) where
  state : σ
  env : ε
  awaited : List κ
  left : Option κ

variable (resume : σ → κ → ρ → σ × Option κ) (serve : ε → κ → ε × ρ)

def drive : ℕ → σ → ε → Option κ → Outcome σ ε κ
  | _, s, e, none => ⟨s, e, [], none⟩
  | 0, s, e, some k => ⟨s, e, [], some k⟩
  | fuel + 1, s, e, some k =>
      let (e', reply) := serve e k
      let (s', next) := resume s k reply
      let o := drive fuel s' e' next
      { o with awaited := k :: o.awaited }

@[simp] theorem drive_none (fuel : ℕ) (s : σ) (e : ε) :
    drive resume serve fuel s e none = ⟨s, e, [], none⟩ := by
  cases fuel <;> rfl

theorem drive_succ (fuel : ℕ) (s : σ) (e : ε) (k : κ) :
    drive resume serve (fuel + 1) s e (some k) =
      let r := resume s k (serve e k).2
      let o := drive resume serve fuel r.1 (serve e k).1 r.2
      { o with awaited := k :: o.awaited } := rfl

variable {resume serve}

/-- More fuel than the rank of the first await is enough when every served await lowers it. -/
theorem drive_left (rank : κ → ℕ)
    (hrank : ∀ s e k k', (resume s k (serve e k).2).2 = some k' → rank k' < rank k) {fuel : ℕ}
    {s : σ} {e : ε} {next : Option κ} (hfuel : ∀ k, next = some k → rank k < fuel) :
    (drive resume serve fuel s e next).left = none := by
  induction fuel generalizing s e next with
  | zero =>
    cases next with
    | none => rfl
    | some k => exact absurd (hfuel k rfl) (Nat.not_lt_zero _)
  | succ fuel ih =>
    cases next with
    | none => rfl
    | some k =>
      rw [drive_succ]
      apply ih
      intro k' hk'
      have hlt : rank k' < rank k := hrank s e k k' hk'
      have hk : rank k < fuel + 1 := hfuel k rfl
      omega

/-- Any fuel that is enough gives the same outcome. -/
theorem drive_fuel {fuel fuel' : ℕ} {s : σ} {e : ε} {next : Option κ}
    (h : (drive resume serve fuel s e next).left = none)
    (h' : (drive resume serve fuel' s e next).left = none) :
    drive resume serve fuel s e next = drive resume serve fuel' s e next := by
  induction fuel generalizing fuel' s e next with
  | zero =>
    cases next with
    | none => rw [drive_none, drive_none]
    | some k => cases h
  | succ fuel ih =>
    cases next with
    | none => rw [drive_none, drive_none]
    | some k =>
      cases fuel' with
      | zero => cases h'
      | succ fuel' =>
        rw [drive_succ] at h h' ⊢
        rw [drive_succ]
        simp only [ih h h']

/-- What every served await keeps is kept by the whole task, however far it comes. -/
theorem drive_invariant {I : σ → ε → Prop}
    (hstep : ∀ s e k, I s e → I (resume s k (serve e k).2).1 (serve e k).1) {fuel : ℕ} {s : σ}
    {e : ε} {next : Option κ} (h : I s e) :
    I (drive resume serve fuel s e next).state (drive resume serve fuel s e next).env := by
  induction fuel generalizing s e next with
  | zero =>
    cases next with
    | none => exact h
    | some k => exact h
  | succ fuel ih =>
    cases next with
    | none => exact h
    | some k =>
      rw [drive_succ]
      exact ih (hstep s e k h)

/-- A task that comes to its end ends in `Q` when every await it stops at keeps `I`. -/
theorem drive_rule {I : σ → ε → κ → Prop} {Q : σ → ε → Prop}
    (hcont : ∀ s e k k', I s e k → (resume s k (serve e k).2).2 = some k' →
      I (resume s k (serve e k).2).1 (serve e k).1 k')
    (hdone : ∀ s e k, I s e k → (resume s k (serve e k).2).2 = none →
      Q (resume s k (serve e k).2).1 (serve e k).1)
    {fuel : ℕ} {s : σ} {e : ε} {next : Option κ} (hI : ∀ k, next = some k → I s e k)
    (hQ : next = none → Q s e) (hleft : (drive resume serve fuel s e next).left = none) :
    Q (drive resume serve fuel s e next).state (drive resume serve fuel s e next).env := by
  induction fuel generalizing s e next with
  | zero =>
    cases next with
    | none => exact hQ rfl
    | some k => cases hleft
  | succ fuel ih =>
    cases next with
    | none => exact hQ rfl
    | some k =>
      have hk : I s e k := hI k rfl
      rw [drive_succ] at hleft ⊢
      exact ih (fun k' hk' => hcont s e k k' hk hk') (hdone s e k hk) hleft

end Driver
