import Mathlib.Data.List.Basic

/-! Reading a log back: the entries since the last mark, and the last value of a kind. -/
namespace Register

variable {β γ : Type*}

/-- The entries after the last mark. -/
def since (mark : β → Bool) (log : List β) : List β :=
  (log.reverse.takeWhile fun b => !mark b).reverse

/-- The last value that an entry carries. -/
def latest (read : β → Option γ) (log : List β) : Option γ := (log.filterMap read).getLast?

variable {mark : β → Bool} {b : β}

@[simp] theorem since_nil : since mark [] = [] := rfl

theorem since_mark (log : List β) (h : mark b = true) : since mark (log ++ [b]) = [] := by
  simp [since, h]

theorem since_concat (log : List β) (h : mark b = false) :
    since mark (log ++ [b]) = since mark log ++ [b] := by
  simp [since, h]

variable (read : β → Option γ)

@[simp] theorem latest_nil : latest read [] = none := rfl

theorem latest_concat (log : List β) (b : β) :
    latest read (log ++ [b]) = (read b).or (latest read log) := by
  unfold latest
  cases h : read b with
  | none => simp [h]
  | some c => simp [h]

end Register
