import GridFlex.Market.Trigger

/-! What a failed `triggerAuction` leaves behind, from any state that operations with any faults
of the node, and any calls of others to the contract, can lead to. -/
namespace GridFlex
open Driver Transition

/-- `FHEDataCollector` is also called from outside the page. -/
inductive MarketAction (Env : Type) where
  | perform (i : Invocation)
  | external (tx : Tx Env)

section Runs

variable {Env : Type} (ids : ℕ → IdSource) (hardhat : Hardhat) (self : Address)
  (fromExternal : Env → ExternalEuint32 → Bytes → Except String Euint32)

def Market.step (m : Market) : MarketAction Env → Market
  | .perform i => m.perform ids hardhat i
  | .external tx => { m with chain := attempt self fromExternal m.chain tx }

theorem run_standing (deployer : Address) (grants : List (Euint32 × Address))
    (redispatchEvent : RedispatchEvent) (actions : List (MarketAction Env)) :
    Standing redispatchEvent (run (Market.step ids hardhat self fromExternal)
      (.initial deployer grants redispatchEvent) actions).frontend := by
  apply run_invariant (I := fun m : Market => Standing redispatchEvent m.frontend)
  · intro m action hs
    cases action with
    | perform i => exact hs.perform i
    | external tx => exact hs
  · exact ⟨rfl, rfl⟩

end Runs

/-- What a trigger that stores no result has to leave as it was. -/
structure Untouched (m m' : Market) : Prop where
  auction : m'.frontend.model.auction = m.frontend.model.auction
  auctionResult : m'.frontend.model.auctionResult = m.frontend.model.auctionResult
  bidPlaced : m'.frontend.model.bidPlaced = m.frontend.model.bidPlaced
  collecting : m'.chain.collector.collecting = m.chain.collector.collecting
  bidprice : m'.chain.collector.bidprice = m.chain.collector.bidprice
  bidquantity : m'.chain.collector.bidquantity = m.chain.collector.bidquantity
  identity : m'.chain.collector.identity = m.chain.collector.identity

/-- The trigger stores a result or leaves everything as it was. -/
def TriggerAtomic (ids : ℕ → IdSource) (hardhat : Hardhat) (m : Market) (i : Invocation) : Prop :=
  (m.outcome ids hardhat i).awaited.any Suspended.isResolving = true ∨
    Untouched m (m.perform ids hardhat i)

/-- `endCollection` takes effect, and then its receipt is lost, the collected data cannot be
read, or there is no demand. -/
structure FailsAfterEnd (hardhat : Hardhat) (m : Market) (network : ℕ → Fate) : Prop where
  guard : ∃ auction, m.Guard auction
  opened : m.Open hardhat
  failure : network 0 = .losesReceipt ∨ ∃ tx, network 0 = .confirms tx ∧
    ((∀ tx', network 1 ≠ .confirms tx') ∨ ¬0 < m.frontend.model.redispatchEvent.powerMW)

variable {ids : ℕ → IdSource} {hardhat : Hardhat} {m : Market}

theorem untouched_of_same {f : Frontend} (ha : f.model.auction = m.frontend.model.auction)
    (hr : f.model.auctionResult = m.frontend.model.auctionResult)
    (hp : f.model.bidPlaced = m.frontend.model.bidPlaced) : Untouched m ⟨f, m.chain⟩ :=
  ⟨ha, hr, hp, rfl, rfl, rfl, rfl⟩

/-- A collection that was open and is closed shows. -/
theorem not_untouched_closed (hopen : m.Open hardhat) (f : Frontend) :
    ¬Untouched m ⟨f, m.chain.closed⟩ := by
  intro h
  have hfalse : m.chain.closed.collector.collecting = true := h.collecting.trans hopen.collecting
  cases hfalse

/-- Nor does a trigger that gets no further than closing it store a result. -/
theorem not_stored_closed (hopen : m.Open hardhat) (f : Frontend) {awaited : List Suspended}
    (hawaited : awaited.any Suspended.isResolving = false) :
    ¬(awaited.any Suspended.isResolving = true ∨ Untouched m ⟨f, m.chain.closed⟩) := by
  rintro (hstored | h)
  · rw [hawaited] at hstored
    cases hstored
  · exact not_untouched_closed hopen f h

theorem triggerAtomic_iff {redispatchEvent : RedispatchEvent}
    (hs : Standing redispatchEvent m.frontend) (now : ℕ → ℕ) (network : ℕ → Fate) :
    TriggerAtomic ids hardhat m ⟨.triggerAuction now, network⟩ ↔
      ¬FailsAfterEnd hardhat m network := by
  have ht : Triggered ids hardhat m now network
      (m.perform ids hardhat ⟨.triggerAuction now, network⟩).frontend
      (m.perform ids hardhat ⟨.triggerAuction now, network⟩).chain
      (m.outcome ids hardhat ⟨.triggerAuction now, network⟩).awaited := m.triggered now network
  unfold TriggerAtomic
  generalize m.perform ids hardhat ⟨.triggerAuction now, network⟩ = m' at ht ⊢
  obtain ⟨f, chain⟩ := m'
  generalize (m.outcome ids hardhat _).awaited = awaited at ht ⊢
  cases ht with
  | ignored hnone =>
    refine iff_of_true (Or.inr (untouched_of_same rfl rfl rfl)) ?_
    rintro ⟨⟨auction, hguard⟩, -, -⟩
    exact hnone auction hguard
  | notEnded auction hguard hshut =>
    refine iff_of_true (Or.inr (untouched_of_same rfl rfl rfl)) ?_
    rintro ⟨-, hopen, hfailure⟩
    rcases hshut with hshut | hdrops
    · exact hshut hopen
    · rcases hfailure with hlost | ⟨tx, htx, -⟩
      · rw [hdrops] at hlost
        cases hlost
      · rw [hdrops] at htx
        cases htx
  | unconfirmed auction hguard hopen hfate =>
    apply iff_of_false
    · exact not_stored_closed hopen _ rfl
    · exact not_not_intro ⟨⟨auction, hguard⟩, hopen, Or.inl hfate⟩
  | unread auction tx hguard hopen hfate hread =>
    apply iff_of_false
    · exact not_stored_closed hopen _ rfl
    · exact not_not_intro ⟨⟨auction, hguard⟩, hopen, Or.inr ⟨tx, hfate, Or.inl hread⟩⟩
  | invalid auction tx tx' hguard hopen hfate hread hvalid =>
    apply iff_of_false
    · exact not_stored_closed hopen _ rfl
    · rw [Ne, Market.snapshot_valid_iff hs auction now] at hvalid
      exact not_not_intro ⟨⟨auction, hguard⟩, hopen, Or.inr ⟨tx, hfate, Or.inr hvalid⟩⟩
  | resolved auction tx tx' output f hguard hopen hfate hread hout hf =>
    refine iff_of_true (Or.inl rfl) ?_
    rintro ⟨-, -, hlost | ⟨tx₀, -, hunread | hdemand⟩⟩
    · rw [hfate] at hlost
      cases hlost
    · exact hunread tx' hread
    · exact hdemand ((Market.snapshot_valid_iff hs auction now).mp (processAuction_inv hout).1)

/-- In every reachable state, a trigger stores a result or leaves model and contract as they
were, unless it fails after its `endCollection` has taken effect. -/
theorem trigger_atomic_iff {Env : Type} (ids : ℕ → IdSource) (hardhat : Hardhat) (self : Address)
    (fromExternal : Env → ExternalEuint32 → Bytes → Except String Euint32) (deployer : Address)
    (grants : List (Euint32 × Address)) (redispatchEvent : RedispatchEvent)
    (actions : List (MarketAction Env)) (now : ℕ → ℕ) (network : ℕ → Fate) :
    let m := run (Market.step ids hardhat self fromExternal)
      (.initial deployer grants redispatchEvent) actions
    TriggerAtomic ids hardhat m ⟨.triggerAuction now, network⟩ ↔
      ¬FailsAfterEnd hardhat m network := by
  intro m
  have hs : Standing redispatchEvent m.frontend :=
    run_standing ids hardhat self fromExternal deployer grants redispatchEvent actions
  exact triggerAtomic_iff hs now network

/-- An active auction with a bid, on both sides. -/
def activeWithBid : List (MarketAction Unit) :=
  [.perform ⟨.broadcastAuction, fun _ => .confirms mockTransaction⟩,
    .perform ⟨.updateBidPower 50, fun _ => .drops⟩, .perform ⟨.updateBidPrice 10, fun _ => .drops⟩,
    .perform ⟨.placeBid, fun _ => .drops⟩]

/-- When the data cannot be read the collection stays closed under an auction that stays active. -/
theorem activeWithBid_not_atomic :
    ¬TriggerAtomic (fun _ => .server) ⟨0, fun _ => true⟩
      (run (Market.step (fun _ => .server) ⟨0, fun _ => true⟩ 1 fun _ _ _ => .error "")
        (.initial 0 [] mockRedispatchEvent) activeWithBid)
      ⟨.triggerAuction fun _ => 0,
        fun k => if k = 0 then .confirms mockTransaction else .drops⟩ := by
  rintro (hstored | h)
  · exact absurd hstored (by decide +kernel)
  · exact absurd h.collecting (by decide +kernel)

end GridFlex
