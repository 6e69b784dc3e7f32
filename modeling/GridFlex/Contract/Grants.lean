import GridFlex.Contract.History

/-! Who may use a bid: the persistent grants that the contract has made are determined by the
submissions that went through, in whatever round. -/
namespace GridFlex
open Transition Accepted

namespace Accepted

/-- The price and quantity handles of every submission, also of earlier rounds. -/
def handles (past : List Accepted) : List Euint32 :=
  (past.filterMap submission?).flatMap fun s => [s.2.1, s.2.2]

theorem mem_handles_concat {past : List Accepted} {a : Accepted} {h : Euint32} :
    h ∈ handles (past ++ [a]) ↔
      h ∈ handles past ∨ ∃ s ∈ a.submission?, h = s.2.1 ∨ h = s.2.2 := by
  cases ha : a.submission? <;> simp [handles, List.filterMap_append, ha]

/-- The bids of the current round are among the submissions. -/
theorem submissions_subset (past : List Accepted) :
    submissions past ⊆ past.filterMap submission? := by
  unfold submissions currentRound
  intro s hs
  obtain ⟨a, ha, hsub⟩ := List.mem_filterMap.mp hs
  have hmem : a ∈ past.reverse :=
    (List.takeWhile_sublist _).subset (List.mem_reverse.mp ha)
  exact List.mem_filterMap.mpr ⟨a, List.mem_reverse.mp hmem, hsub⟩

end Accepted

/-- Every handle submitted is granted to the contract and to the owner, and that is all. -/
structure GrantsMatch (contract deployer : Address) (c : ChainState) (past : List Accepted) :
    Prop where
  owner : c.collector.owner = deployer
  grants : ∀ handle account, (handle, account) ∈ c.grants ↔
    handle ∈ handles past ∧ (account = contract ∨ account = deployer)

section Runs

variable {Env : Type} (self : Address)
  (fromExternal : Env → ExternalEuint32 → Bytes → Except String Euint32)

variable {self} in
theorem Effect.grantsMatch {deployer : Address} {c c' : ChainState} {tx : Tx Env}
    {past new : List Accepted} (he : Effect self c tx c' new)
    (h : GrantsMatch self deployer c past) : GrantsMatch self deployer c' (past ++ new) := by
  cases he with
  | reverted => simpa using h
  | started | ended | resolved =>
    refine ⟨h.owner, fun handle account => ?_⟩
    rw [h.grants, mem_handles_concat]
    simp [submission?]
  | submitted price quantity =>
    refine ⟨h.owner, fun handle account => ?_⟩
    rw [List.mem_append, h.grants, mem_handles_concat]
    simp only [submission?, Option.mem_some_iff, exists_eq_left', List.mem_cons, Prod.mk.injEq,
      List.not_mem_nil, or_false, h.owner]
    grind

theorem chainRun_grantsMatch (deployer : Address) (txs : List (Tx Env)) :
    GrantsMatch self deployer (chainRun self fromExternal (deployed deployer []) txs)
      (history self fromExternal (deployed deployer []) txs) := by
  apply run_history (J := GrantsMatch self deployer)
  · intro c past tx h
    exact (attempt_effect self fromExternal c tx).grantsMatch h
  · exact ⟨rfl, by simp [deployed, handles]⟩

/-- The contract can evaluate, and the owner decrypt, both handles of every stored bid. -/
structure BidsUsable (contract : Address) (c : ChainState) : Prop where
  bidprice : ∀ handle ∈ c.collector.bidprice,
    (handle, contract) ∈ c.grants ∧ (handle, c.collector.owner) ∈ c.grants
  bidquantity : ∀ handle ∈ c.collector.bidquantity,
    (handle, contract) ∈ c.grants ∧ (handle, c.collector.owner) ∈ c.grants

/-- In every reachable state the grants made are those of the contract and the owner on the
handles submitted so far, and they cover every stored bid. -/
theorem grants_exact (deployer : Address) (txs : List (Tx Env)) :
    let c := chainRun self fromExternal (deployed deployer []) txs
    {g | g ∈ c.grants} =
        {g | g.1 ∈ handles (history self fromExternal (deployed deployer []) txs) ∧
          (g.2 = self ∨ g.2 = c.collector.owner)} ∧
      BidsUsable self c := by
  intro c
  have hg : GrantsMatch self deployer c _ := chainRun_grantsMatch self fromExternal deployer txs
  have hm := chainRun_matchesHistory self fromExternal deployer [] txs
  have husable : ∀ s ∈ submissions (history self fromExternal (deployed deployer []) txs),
      ∀ handle, handle = s.2.1 ∨ handle = s.2.2 →
        (handle, self) ∈ c.grants ∧ (handle, c.collector.owner) ∈ c.grants := by
    intro s hs handle hhandle
    have hmem : handle ∈ handles (history self fromExternal (deployed deployer []) txs) :=
      List.mem_flatMap.mpr ⟨s, submissions_subset _ hs, by simpa using hhandle⟩
    exact ⟨(hg.grants handle _).mpr ⟨hmem, Or.inl rfl⟩,
      (hg.grants handle _).mpr ⟨hmem, Or.inr hg.owner⟩⟩
  refine ⟨?_, ?_, ?_⟩
  · ext ⟨handle, account⟩
    show (handle, account) ∈ c.grants ↔ _ ∧ (account = self ∨ account = c.collector.owner)
    rw [hg.grants, hg.owner]
  · intro handle hh
    obtain ⟨s, hs, rfl⟩ := List.mem_map.mp (hm.bidprice ▸ hh)
    exact husable s hs _ (Or.inl rfl)
  · intro handle hh
    obtain ⟨s, hs, rfl⟩ := List.mem_map.mp (hm.bidquantity ▸ hh)
    exact husable s hs _ (Or.inr rfl)

end Runs

end GridFlex
