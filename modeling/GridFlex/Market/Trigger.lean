import GridFlex.Market.Sequential

/-! Every way in which `triggerAuction` can run from its first line to its end. -/
namespace GridFlex
open Driver

/-- The state that `triggerAuction` takes at its start. -/
def Frontend.snapshot (f : Frontend) (auction : Auction) (now : ℕ → ℕ) : Snapshot :=
  ⟨auction, f.model.redispatchEvent, f.model.participants, now⟩

/-- The await right after step 5, which writes the result. -/
def Suspended.isResolving : Suspended → Bool
  | .resolvingAuction _ _ => true
  | _ => false

/-- The chain after a confirmed `endCollection`. -/
def ChainState.closed (c : ChainState) : ChainState :=
  { c with collector := { c.collector with collecting := false } }

/-- `triggerAuction` gets past its first line, with this auction. -/
structure Market.Guard (m : Market) (auction : Auction) : Prop where
  auction : m.frontend.model.auction = some auction
  bidPlaced : m.frontend.model.bidPlaced = true

/-- The contract lets the wallet end the collection. -/
structure Market.Open (hardhat : Hardhat) (m : Market) : Prop where
  owner : hardhat.wallet = m.chain.collector.owner
  collecting : m.chain.collector.collecting = true

/-- One trigger, from the market before it to the page and the chain after it, with the awaits
it has passed. -/
inductive Triggered (ids : ℕ → IdSource) (hardhat : Hardhat) (m : Market) (now : ℕ → ℕ)
    (network : ℕ → Fate) : Frontend → ChainState → List Suspended → Prop where
  | ignored (h : ∀ auction, ¬m.Guard auction) :
      Triggered ids hardhat m now network m.frontend m.chain []
  | notEnded (auction : Auction) (hguard : m.Guard auction)
      (h : ¬m.Open hardhat ∨ network 0 = .drops) :
      Triggered ids hardhat m now network (m.frontend.fail "Failed to trigger auction") m.chain
        [.endingCollection (m.frontend.snapshot auction now)]
  | unconfirmed (auction : Auction) (hguard : m.Guard auction) (hopen : m.Open hardhat)
      (hfate : network 0 = .losesReceipt) :
      Triggered ids hardhat m now network (m.frontend.fail "Failed to trigger auction")
        m.chain.closed [.endingCollection (m.frontend.snapshot auction now)]
  | unread (auction : Auction) (tx : BlockchainTransaction) (hguard : m.Guard auction)
      (hopen : m.Open hardhat) (hfate : network 0 = .confirms tx)
      (hread : ∀ tx', network 1 ≠ .confirms tx') :
      Triggered ids hardhat m now network
        ((m.frontend.dispatch (.addTransaction tx)).fail "Failed to trigger auction")
        m.chain.closed
        [.endingCollection (m.frontend.snapshot auction now),
          .collectingData (m.frontend.snapshot auction now)]
  | invalid (auction : Auction) (tx tx' : BlockchainTransaction) (hguard : m.Guard auction)
      (hopen : m.Open hardhat) (hfate : network 0 = .confirms tx)
      (hread : network 1 = .confirms tx')
      (hvalid : validateInput (m.frontend.snapshot auction now).auctionInput ≠ .ok ()) :
      Triggered ids hardhat m now network
        ((m.frontend.dispatch (.addTransaction tx)).fail "Failed to trigger auction")
        m.chain.closed
        [.endingCollection (m.frontend.snapshot auction now),
          .collectingData (m.frontend.snapshot auction now)]
  | resolved (auction : Auction) (tx tx' : BlockchainTransaction) (output : AuctionOutput)
      (f : Frontend) (hguard : m.Guard auction) (hopen : m.Open hardhat)
      (hfate : network 0 = .confirms tx) (hread : network 1 = .confirms tx')
      (hout : processAuction (m.frontend.snapshot auction now).auctionInput = .ok output)
      (hf : f = (((m.frontend.dispatch (.addTransaction tx)).storeResult auction
        output.result).serviceTriggerAuction ids auction.id
          (m.frontend.snapshot auction now).mockBidId).1) :
      Triggered ids hardhat m now network f m.chain.closed
        [.endingCollection (m.frontend.snapshot auction now),
          .collectingData (m.frontend.snapshot auction now),
          .resolvingAuction auction.id (m.frontend.snapshot auction now).mockBidId,
          .auctionResolved auction.id]

variable {ids : ℕ → IdSource} {hardhat : Hardhat}

/-- The node's answers to the two calls of a trigger. -/
theorem Hardhat.endCollection_cases (hardhat : Hardhat) (fate : Fate) (m : Market) (k : ℕ) :
    (¬m.Open hardhat ∨ fate = .drops) ∧
        hardhat.endCollection fate ⟨m.chain, k⟩ = (⟨m.chain, k + 1⟩, .rejected) ∨
    m.Open hardhat ∧ fate = .losesReceipt ∧
        hardhat.endCollection fate ⟨m.chain, k⟩ = (⟨m.chain.closed, k + 1⟩, .rejected) ∨
    ∃ tx, m.Open hardhat ∧ fate = .confirms tx ∧
        hardhat.endCollection fate ⟨m.chain, k⟩ = (⟨m.chain.closed, k + 1⟩, .transaction tx) := by
  by_cases hopen : m.Open hardhat
  · have hend : m.chain.collector.endCollection hardhat.wallet = .ok m.chain.closed.collector :=
      FHEDataCollector.endCollection_ok.mpr ⟨hopen.owner, hopen.collecting, rfl⟩
    cases fate with
    | confirms tx =>
      exact Or.inr (Or.inr ⟨tx, hopen, rfl, by simp [endCollection, transact, hend,
        ChainState.closed]⟩)
    | losesReceipt =>
      exact Or.inr (Or.inl ⟨hopen, rfl, by simp [endCollection, transact, hend,
        ChainState.closed]⟩)
    | drops => exact Or.inl ⟨Or.inr rfl, by simp [endCollection, transact, hend]⟩
  · left
    refine ⟨Or.inl hopen, ?_⟩
    cases hend : m.chain.collector.endCollection hardhat.wallet with
    | ok collector =>
      obtain ⟨howner, hcollecting, -⟩ := FHEDataCollector.endCollection_ok.mp hend
      exact absurd ⟨howner, hcollecting⟩ hopen
    | error message => simp [endCollection, transact, hend]

theorem Hardhat.getCollectedData_closed {m : Market} (hopen : m.Open hardhat) (fate : Fate)
    (k : ℕ) :
    (∀ tx, fate ≠ .confirms tx) ∧
        hardhat.getCollectedData fate ⟨m.chain.closed, k⟩ = (⟨m.chain.closed, k + 1⟩, .rejected) ∨
    ∃ tx prices quantities, fate = .confirms tx ∧
        hardhat.getCollectedData fate ⟨m.chain.closed, k⟩ =
          (⟨m.chain.closed, k + 1⟩, .collected prices quantities) := by
  have hread : m.chain.closed.collector.getCollectedData hardhat.wallet =
      .ok (m.chain.collector.bidprice, m.chain.collector.bidquantity) := by
    simp only [FHEDataCollector.getCollectedData, FHEDataCollector.onlyOwner, ChainState.closed,
      hopen.owner]
    rfl
  cases fate with
  | confirms tx =>
    exact Or.inr ⟨tx, _, _, rfl, by simp only [getCollectedData, hread]; rfl⟩
  | losesReceipt => exact Or.inl ⟨by simp, by simp [getCollectedData, hread]⟩
  | drops => exact Or.inl ⟨by simp, by simp [getCollectedData, hread]⟩

namespace Market

theorem outcome_ignored {m : Market} {now : ℕ → ℕ} {network : ℕ → Fate}
    (h : ∀ auction, ¬m.Guard auction) :
    m.outcome ids hardhat ⟨.triggerAuction now, network⟩ =
      ⟨m.frontend, ⟨m.chain, 0⟩, [], none⟩ := by
  unfold outcome
  cases ha : m.frontend.model.auction with
  | none => simp [Frontend.begin, ha]
  | some auction =>
    have hp : m.frontend.model.bidPlaced = false := by
      by_contra hp
      simp only [Bool.not_eq_false] at hp
      exact h auction ⟨ha, hp⟩
    simp [Frontend.begin, ha, hp]

theorem outcome_guard {m : Market} {auction : Auction} {now : ℕ → ℕ} {network : ℕ → Fate}
    (h : m.Guard auction) :
    m.outcome ids hardhat ⟨.triggerAuction now, network⟩ =
      drive (Frontend.resume ids) (hardhat.serve network) 4 m.frontend ⟨m.chain, 0⟩
        (some (.endingCollection (m.frontend.snapshot auction now))) := by
  unfold outcome
  simp [Frontend.begin, h.auction, h.bidPlaced, Suspended.awaits, Frontend.snapshot]

theorem triggered (m : Market) (now : ℕ → ℕ) (network : ℕ → Fate) :
    let o := m.outcome ids hardhat ⟨.triggerAuction now, network⟩
    Triggered ids hardhat m now network o.state o.env.chain o.awaited := by
  intro o
  by_cases hguard : ∃ auction, m.Guard auction
  · obtain ⟨auction, hguard⟩ := hguard
    have ho : o = drive (Frontend.resume ids) (hardhat.serve network) 4 m.frontend ⟨m.chain, 0⟩
        (some (.endingCollection (m.frontend.snapshot auction now))) := outcome_guard hguard
    rw [ho, drive_succ]
    rcases hardhat.endCollection_cases (network 0) m 0 with ⟨h, he⟩ | ⟨hopen, hfate, he⟩ |
      ⟨tx, hopen, hfate, he⟩
    · simp only [Hardhat.serve, he, Frontend.resume, drive_none]
      exact .notEnded auction hguard h
    · simp only [Hardhat.serve, he, Frontend.resume, drive_none]
      exact .unconfirmed auction hguard hopen hfate
    · simp only [Hardhat.serve, he, Frontend.resume, drive_succ]
      rcases Hardhat.getCollectedData_closed hopen (network 1) 1 with ⟨hread, hg⟩ |
        ⟨tx', prices, quantities, hread, hg⟩
      · simp only [hg, drive_none]
        exact .unread auction tx hguard hopen hfate hread
      · simp only [hg]
        cases hout : processAuction (m.frontend.snapshot auction now).auctionInput with
        | error message =>
          have hvalid : validateInput (m.frontend.snapshot auction now).auctionInput ≠ .ok () := by
            intro hv
            obtain ⟨output, hok, -⟩ := processAuction_ok hv
            rw [hout] at hok
            cases hok
          simp only [drive_none]
          exact .invalid auction tx tx' hguard hopen hfate hread hvalid
        | ok output =>
          exact .resolved auction tx tx' output _ hguard hopen hfate hread hout rfl
  · have hnone : ∀ auction, ¬m.Guard auction := not_exists.mp hguard
    have ho : o = ⟨m.frontend, ⟨m.chain, 0⟩, [], none⟩ := outcome_ignored hnone
    rw [ho]
    exact .ignored hnone

/-- With participants on the page, the input of a trigger is valid if there is a demand. -/
theorem snapshot_valid_iff {m : Market} {redispatchEvent : RedispatchEvent}
    (hs : Standing redispatchEvent m.frontend) (auction : Auction) (now : ℕ → ℕ) :
    validateInput (m.frontend.snapshot auction now).auctionInput = .ok () ↔
      0 < m.frontend.model.redispatchEvent.powerMW := by
  have hne : (m.frontend.snapshot auction now).bids ≠ [] := by
    intro hb
    have hlen := congrArg List.length hs.participants
    have hzero : m.frontend.model.participants.length = 0 := by
      simpa [Snapshot.bids, Frontend.snapshot] using congrArg List.length hb
    simp [initialParticipants, hzero] at hlen
  rw [validateInput_ok_iff]
  exact and_iff_right hne

end Market

theorem Triggered.resolved_quiet {m : Market} {auction : Auction} {tx : BlockchainTransaction}
    {result : AuctionResult} {bidId : String} {f : Frontend}
    (hf : f = (((m.frontend.dispatch (.addTransaction tx)).storeResult auction
      result).serviceTriggerAuction ids auction.id bidId).1) :
    Quiet ((m.frontend.dispatch (.addTransaction tx)).storeResult auction result) f :=
  hf ▸ Frontend.serviceTriggerAuction_quiet ids _ _ _

end GridFlex
