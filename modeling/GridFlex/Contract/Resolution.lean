import GridFlex.Contract.History

/-! A resolution on the contract is always the verdict on the bids that are stored next to it. -/
namespace GridFlex
open Transition Accepted

/-- The phase flag, the arrays and the resolution fit together. -/
structure FHEDataCollector.Fresh (c : FHEDataCollector) : Prop where
  open_empty : c.collecting = true → c.resolution = []
  quantity_length : c.bidquantity.length = c.bidprice.length
  identity_length : c.identity.length = c.bidprice.length
  resolution_length : c.resolution ≠ [] → c.resolution.length = c.bidprice.length

theorem deploy_fresh (deployer : Address) : (FHEDataCollector.deploy deployer).Fresh := by
  constructor <;> simp [FHEDataCollector.deploy]

section Runs

variable {Env : Type} (self : Address)
  (fromExternal : Env → ExternalEuint32 → Bytes → Except String Euint32)

variable {self} in
theorem Effect.fresh {c c' : ChainState} {tx : Tx Env} {new : List Accepted}
    (he : Effect self c tx c' new) (h : c.collector.Fresh) : c'.collector.Fresh := by
  cases he with
  | reverted => exact h
  | started hcall howner => constructor <;> simp
  | submitted price quantity hopen =>
    have hres : c.collector.resolution = [] := h.open_empty hopen
    constructor <;> simp [FHEDataCollector.push, hres, h.quantity_length, h.identity_length]
  | ended hcall howner hopen =>
    exact ⟨fun h' => by simp at h', h.quantity_length, h.identity_length, h.resolution_length⟩
  | resolved resolution hcall howner hclosed hlen =>
    refine ⟨fun hopen => ?_, h.quantity_length, h.identity_length, fun _ => hlen⟩
    exact absurd hopen (by simp [hclosed])

theorem chainRun_fresh (deployer : Address) (grants : List (Euint32 × Address))
    (txs : List (Tx Env)) :
    (chainRun self fromExternal (deployed deployer grants) txs).collector.Fresh :=
  run_invariant (I := fun c : ChainState => c.collector.Fresh)
    (fun c tx h => (attempt_effect self fromExternal c tx).fresh h) (deploy_fresh deployer) txs

/-- A transaction of the run published the resolution of `c` over the arrays of `c`, and no
later one published again. -/
def Published (start : ChainState) (txs : List (Tx Env)) (c : FHEDataCollector) : Prop :=
  ∃ before tx after, txs = before ++ tx :: after ∧
    accepted self fromExternal (chainRun self fromExternal start before) tx =
      [.broadcast c.resolution] ∧
    (∀ a ∈ history self fromExternal (chainRun self fromExternal start (before ++ [tx])) after,
      a.broadcast? = none) ∧
    (chainRun self fromExternal start before).collector.bidprice = c.bidprice ∧
    (chainRun self fromExternal start before).collector.bidquantity = c.bidquantity ∧
    (chainRun self fromExternal start before).collector.identity = c.identity

/-- A call that neither publishes nor touches the published data leaves the publication valid. -/
theorem Published.concat {start : ChainState} {txs : List (Tx Env)} {c : FHEDataCollector}
    {tx : Tx Env} (h : Published self fromExternal start txs c)
    (hnone : accepted self fromExternal (chainRun self fromExternal start txs) tx = []) :
    Published self fromExternal start (txs ++ [tx]) c := by
  obtain ⟨before, tx', after, rfl, hacc, hlater, harrays⟩ := h
  refine ⟨before, tx', after ++ [tx], by simp, hacc, ?_, harrays⟩
  rw [history, emitted_concat, ← run_append]
  have he : before ++ [tx'] ++ after = before ++ tx' :: after := by simp
  rw [he, hnone, List.append_nil]
  exact hlater

theorem chainRun_published (deployer : Address) (grants : List (Euint32 × Address))
    (txs : List (Tx Env)) :
    (chainRun self fromExternal (deployed deployer grants) txs).collector.resolution ≠ [] →
      Published self fromExternal (deployed deployer grants) txs
        (chainRun self fromExternal (deployed deployer grants) txs).collector := by
  induction txs using List.reverseRecOn with
  | nil =>
    intro h
    simp [deployed, FHEDataCollector.deploy] at h
  | append_singleton txs tx ih =>
    have hfresh := chainRun_fresh self fromExternal deployer grants txs
    have he := attempt_effect self fromExternal
      (chainRun self fromExternal (deployed deployer grants) txs) tx
    generalize hnew : accepted self fromExternal
      (chainRun self fromExternal (deployed deployer grants) txs) tx = new at he
    rw [chainRun, run_concat]
    generalize attempt self fromExternal
      (chainRun self fromExternal (deployed deployer grants) txs) tx = c' at he
    intro h
    -- only a revert and a broadcast can leave a non-empty resolution behind
    cases he with
    | reverted => exact (ih h).concat self fromExternal hnew
    | started hcall howner => simp at h
    | submitted price quantity hopen => exact absurd (hfresh.open_empty hopen) h
    | ended hcall howner hopen => exact absurd (hfresh.open_empty hopen) h
    | resolved resolution hcall howner hclosed hlen =>
      exact ⟨txs, tx, [], rfl, hnew, by simp [history, emitted], rfl, rfl, rfl⟩

/-- While bids are collected there is no resolution, and a resolution covers, bid by bid,
the very arrays it was broadcast over. -/
theorem resolution_never_stale (deployer : Address) (grants : List (Euint32 × Address))
    (txs : List (Tx Env)) :
    let c := (chainRun self fromExternal (deployed deployer grants) txs).collector
    (c.collecting = true → c.resolution = []) ∧
      (c.resolution ≠ [] →
        c.resolution.length = c.bidprice.length ∧
        c.resolution.length = c.bidquantity.length ∧
        c.resolution.length = c.identity.length ∧
        Published self fromExternal (deployed deployer grants) txs c) := by
  intro c
  have hfresh := chainRun_fresh self fromExternal deployer grants txs
  refine ⟨hfresh.open_empty, fun hne => ?_⟩
  have hlen := hfresh.resolution_length hne
  exact ⟨hlen, hlen.trans hfresh.quantity_length.symm, hlen.trans hfresh.identity_length.symm,
    chainRun_published self fromExternal deployer grants txs hne⟩

end Runs

end GridFlex
