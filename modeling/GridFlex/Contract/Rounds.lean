import GridFlex.Contract.History

/-! The starts and ends of collections alternate in every history of the contract, so that the
calls of one round cannot close it twice. -/
namespace GridFlex
open Transition Accepted

namespace Accepted

/-- Every end of a collection closes a start that no other end has closed. -/
def Closes (past : List Accepted) : Prop :=
  ∀ before after, past = before ++ .endCollection :: after →
    lastPhase before = some .startCollection

theorem closes_nil : Closes [] := by
  intro before after h
  simp at h

theorem Closes.concat {past : List Accepted} {a : Accepted} (h : Closes past)
    (ha : a = .endCollection → lastPhase past = some .startCollection) : Closes (past ++ [a]) := by
  intro before after hs
  rcases List.eq_nil_or_concat after with rfl | ⟨after', b, rfl⟩
  · obtain ⟨rfl, he⟩ := List.append_inj' hs rfl
    cases he
    exact ha rfl
  · have hs' : past ++ [a] = (before ++ .endCollection :: after') ++ [b] := by simpa using hs
    obtain ⟨rfl, -⟩ := List.append_inj' hs' rfl
    exact h before after' rfl

theorem Closes.of_append {past more : List Accepted} (h : Closes (past ++ more)) :
    Closes past := by
  rintro before after rfl
  exact h before (after ++ more) (by simp)

/-- The rounds that are closed are among those that have been opened. -/
theorem Closes.count_le {past : List Accepted} (h : Closes past) :
    past.count .endCollection + (if lastPhase past = some .startCollection then 1 else 0) ≤
      past.count .startCollection := by
  induction past using List.reverseRecOn with
  | nil => simp [lastPhase]
  | append_singleton past a ih =>
    have hpast := ih h.of_append
    rw [List.count_append, List.count_append, lastPhase_concat]
    cases a with
    | startCollection =>
      simp [isPhase]
      omega
    | endCollection =>
      have hlast : lastPhase past = some .startCollection := h past [] rfl
      simp only [hlast, ↓reduceIte] at hpast
      simp [isPhase]
      omega
    | submitData | broadcast => simpa [isPhase] using hpast

/-- A stretch of the history without a start has no two ends. -/
theorem Closes.round {before round after : List Accepted} (h : Closes (before ++ round ++ after))
    (hround : .startCollection ∉ round) : round.count .endCollection ≤ 1 := by
  by_contra hmany
  have hmem : Accepted.endCollection ∈ round := List.count_pos_iff.mp (by omega)
  obtain ⟨front, rear, rfl⟩ := List.append_of_mem hmem
  -- the last of the ends, with another one before it
  have hsecond : Accepted.endCollection ∈ front ++ rear := by
    apply List.count_pos_iff.mp
    simp only [List.count_append, List.count_cons_self] at hmany ⊢
    omega
  obtain ⟨first, middle, last, hsplit⟩ : ∃ first middle last,
      front ++ .endCollection :: rear =
        first ++ .endCollection :: middle ++ .endCollection :: last := by
    rcases List.mem_append.mp hsecond with hfront | hrear
    · obtain ⟨first, middle, rfl⟩ := List.append_of_mem hfront
      exact ⟨first, middle, rear, rfl⟩
    · obtain ⟨middle, last, rfl⟩ := List.append_of_mem hrear
      exact ⟨front, middle, last, by simp⟩
  rw [hsplit] at h hround
  have hlast := h (before ++ first ++ .endCollection :: middle) (last ++ after) (by simp)
  have hmiddle : ∀ a ∈ middle.filter isPhase, a = .endCollection := by
    intro a ha
    obtain ⟨hmem, hphase⟩ := List.mem_filter.mp ha
    cases a with
    | endCollection => rfl
    | startCollection => exact absurd (by simp [hmem]) hround
    | submitData | broadcast => cases hphase
  rw [lastPhase, List.filter_append, List.filter_cons_of_pos rfl, List.getLast?_append,
    List.getLast?_cons, Option.some_or] at hlast
  have hend : (middle.filter isPhase).getLast?.getD .endCollection = .endCollection := by
    cases hl : (middle.filter isPhase).getLast? with
    | none => rfl
    | some a => exact hmiddle a (List.mem_of_getLast? hl)
  rw [hend] at hlast
  cases hlast

end Accepted

section Runs

variable {Env : Type} (self : Address)
  (fromExternal : Env → ExternalEuint32 → Bytes → Except String Euint32)

variable {self} in
theorem Effect.closes {deployer : Address} {c c' : ChainState} {tx : Tx Env}
    {past new : List Accepted} (he : Effect self c tx c' new)
    (hm : MatchesHistory deployer c.collector past) (h : Closes past) : Closes (past ++ new) := by
  cases he with
  | reverted => simpa using h
  | ended hcall howner hopen => exact h.concat fun _ => hm.collecting.mp hopen
  | started | submitted | resolved => exact h.concat (by simp)

theorem chainRun_closes (deployer : Address) (grants : List (Euint32 × Address))
    (txs : List (Tx Env)) : Closes (history self fromExternal (deployed deployer grants) txs) := by
  have hboth : MatchesHistory deployer
        (chainRun self fromExternal (deployed deployer grants) txs).collector
        (history self fromExternal (deployed deployer grants) txs) ∧
      Closes (history self fromExternal (deployed deployer grants) txs) := by
    apply run_history
      (J := fun (c : ChainState) past => MatchesHistory deployer c.collector past ∧ Closes past)
    · rintro c past tx ⟨hm, h⟩
      have he := attempt_effect self fromExternal c tx
      exact ⟨he.matchesHistory hm, he.closes hm h⟩
    · exact ⟨chainRun_matchesHistory self fromExternal deployer grants [], closes_nil⟩
  exact hboth.2

end Runs

end GridFlex
