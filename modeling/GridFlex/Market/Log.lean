import GridFlex.Frontend.Effects
import GridFlex.Market.BidIntegrity

/-! What one operation of a sequential run appends to the event log, with what it does to the
auction of the model and to the phase of the contract. -/
namespace GridFlex

def EventPayload.result? : EventPayload → Option AuctionResult
  | .auctionResolved result _ _ => some result
  | _ => none

theorem submission_spec {p : EventPayload} {draft : BidDraft} (h : p.submission? = some draft) :
    p.concerns? = some draft.auctionId ∧ p.opens? = none ∧ p.result? = none := by
  cases p with
  | bidSubmitted bid auction =>
    cases h
    exact ⟨rfl, rfl, rfl⟩
  | _ => cases h

/-- The new events are submissions of the bids, and every bid has one. -/
theorem Submits.new {f g : Frontend} {drafts : List BidDraft} (h : Submits f g drafts) :
    ∃ new, g.events = f.events ++ new ∧
      (∀ e ∈ new, ∃ draft ∈ drafts, e.payload.submission? = some draft) ∧
      ∀ draft ∈ drafts, ∃ e ∈ new, e.payload.submission? = some draft := by
  obtain ⟨new, hevents, hnew⟩ := h
  refine ⟨new, hevents, ?_, ?_⟩
  · intro e he
    have hmem : e.payload.submission? ∈ drafts.map some := hnew ▸ List.mem_map_of_mem he
    obtain ⟨draft, hdraft, heq⟩ := List.mem_map.mp hmem
    exact ⟨draft, hdraft, heq.symm⟩
  · intro draft hdraft
    have hmem : some draft ∈ new.map fun e => e.payload.submission? :=
      hnew ▸ List.mem_map_of_mem hdraft
    obtain ⟨e, he, heq⟩ := List.mem_map.mp hmem
    exact ⟨e, he, heq⟩

/-- One operation, from the market before it to the market after it. -/
inductive Operated (ids : ℕ → IdSource) (hardhat : Hardhat) (m : Market) (i : Invocation) :
    Market → Prop where
  /-- It bids or edits. -/
  | bids {m'} (hauction : m'.frontend.model.auction = m.frontend.model.auction)
      (hchain : m'.chain = m.chain) (hcounter : m.frontend.idCounter ≤ m'.frontend.idCounter)
      (hsubmits : Submits m.frontend m'.frontend (m.offers (order i.operation))) :
      Operated ids hardhat m i m'
  /-- It is a broadcast or a trigger that returns early. -/
  | refused {m'} (hoffers : m.offers (order i.operation) = [])
      (hauction : m'.frontend.model.auction = m.frontend.model.auction)
      (hchain : m'.chain = m.chain ∨ m'.chain = m.chain.closed ∨ i.network 0 = .losesReceipt)
      (hcounter : m'.frontend.idCounter = m.frontend.idCounter)
      (hevents : m'.frontend.events = m.frontend.events) : Operated ids hardhat m i m'
  | broadcasts {m'} (auction : Auction) (tx : BlockchainTransaction) (e : GridFlexibilityEvent)
      (hop : i.operation = .broadcastAuction) (howner : hardhat.wallet = m.chain.collector.owner)
      (hfate : i.network 0 = .confirms tx)
      (hid : auction.id = (generateId ids m.frontend.idCounter).1)
      (hactive : auction.status = .active)
      (hterms : auction.powerMW = 100 ∧ auction.costPerMW = 50)
      (hauction : m'.frontend.model.auction = some auction)
      (hcounter : m.frontend.idCounter < m'.frontend.idCounter)
      (hpayload : e.payload = .auctionBroadcasted auction
        ⟨m.frontend.model.redispatchEvent.id, 100, 50, .active⟩)
      (hevents : m'.frontend.events = m.frontend.events ++ [e]) : Operated ids hardhat m i m'
  | resolves {m'} (auction : Auction) (e : GridFlexibilityEvent) (result : AuctionResult)
      (served : Auction) (bid : Bid) (hoffers : m.offers (order i.operation) = [])
      (hguard : m.Guard auction) (hopen : m.Open hardhat)
      (hauction : m'.frontend.model.auction = some { auction with status := .completed })
      (hchain : m'.chain = m.chain.closed)
      (hcounter : m.frontend.idCounter ≤ m'.frontend.idCounter)
      (hid : result.auctionId = auction.id)
      (hpayload : e.payload = .auctionResolved result served bid)
      (hevents : m'.frontend.events = m.frontend.events ++ [e]) : Operated ids hardhat m i m'
  | resets {m'} (e : GridFlexibilityEvent) (reason : String)
      (hoffers : m.offers (order i.operation) = []) (hauction : m'.frontend.model.auction = none)
      (hcounter : m.frontend.idCounter ≤ m'.frontend.idCounter)
      (hpayload : e.payload = .auctionReset reason)
      (hevents : m'.frontend.events = m.frontend.events ++ [e]) : Operated ids hardhat m i m'

/-- A trigger that goes through publishes the result of the service's own run. -/
theorem Triggered.resolved_publishes {ids : ℕ → IdSource} {m : Market} {auction : Auction}
    {tx : BlockchainTransaction} {result : AuctionResult} {bidId : String} {f : Frontend}
    (hf : f = (((m.frontend.dispatch (.addTransaction tx)).storeResult auction
      result).serviceTriggerAuction ids auction.id bidId).1) :
    ∃ output served bid e,
      processAuction ⟨Frontend.serviceGetAuction auction.id,
        Frontend.serviceGetRedispatchEvent "redispatch-1", Frontend.getSubmittedBids auction.id,
        DEFAULT_AUCTION_CONFIG⟩ = .ok output ∧ output.result.auctionId = auction.id ∧
      e.payload = .auctionResolved output.result served bid ∧
      f.events = m.frontend.events ++ [e] := by
  obtain ⟨output, hout, hid, hservice⟩ := ((m.frontend.dispatch (.addTransaction tx)).storeResult
    auction result).serviceTriggerAuction_publishes ids auction.id bidId
  rw [hservice] at hf
  subst hf
  exact ⟨output, _, _, _, hout, hid, rfl, rfl⟩

/-- Only a confirmed broadcast by the owner puts an auction where there was none. -/
theorem Operated.auction {ids : ℕ → IdSource} {hardhat : Hardhat} {m m' : Market}
    {i : Invocation} (h : Operated ids hardhat m i m') {auction : Auction}
    (ha : m'.frontend.model.auction = some auction) :
    (i.operation = .broadcastAuction ∧ hardhat.wallet = m.chain.collector.owner ∧
        ∃ tx, i.network 0 = .confirms tx) ∨
      ∃ b, m.frontend.model.auction = some b := by
  cases h with
  | bids hauction => exact Or.inr ⟨auction, hauction ▸ ha⟩
  | refused _ hauction => exact Or.inr ⟨auction, hauction ▸ ha⟩
  | broadcasts _ tx _ hop howner hfate => exact Or.inl ⟨hop, howner, tx, hfate⟩
  | resolves b _ _ _ _ _ hguard => exact Or.inr ⟨b, hguard.auction⟩
  | resets _ _ _ hauction => cases hauction.symm.trans ha

namespace Market

variable {ids : ℕ → IdSource} {hardhat : Hardhat} {m : Market}

theorem perform_idCounter (m : Market) (ids : ℕ → IdSource) (hardhat : Hardhat)
    (i : Invocation) : m.frontend.idCounter ≤ (m.perform ids hardhat i).frontend.idCounter := by
  apply outcome_invariant (I := fun f _ => m.frontend.idCounter ≤ f.idCounter)
  · exact (begin_segment m.frontend _).idCounter_le
  · exact fun f g c hf => hf.trans (resume_segment f c _).idCounter_le

theorem broadcast_performed (network : ℕ → Fate) :
    Operated ids hardhat m ⟨.broadcastAuction, network⟩
      (m.perform ids hardhat ⟨.broadcastAuction, network⟩) := by
  by_cases h : hardhat.wallet = m.chain.collector.owner ∧ ∃ tx, network 0 = .confirms tx
  · obtain ⟨howner, tx, hfate⟩ := h
    have hstart := FHEDataCollector.startCollection_ok.mpr ⟨howner, rfl⟩
    rw [m.perform_broadcastAuction ids hstart hfate]
    exact .broadcasts _ tx _ rfl howner hfate rfl rfl ⟨rfl, rfl⟩ rfl
      (Frontend.serviceBroadcastAuction_idCounter ids (m.frontend.dispatch (.addTransaction tx))
        m.frontend.model.redispatchEvent.id) rfl rfl
  · rw [not_and_or, not_exists] at h
    obtain ⟨hf, hchain⟩ := m.perform_broadcastAuction_rejected ids h
    generalize m.perform ids hardhat ⟨.broadcastAuction, network⟩ = m' at hf hchain ⊢
    obtain ⟨f, chain⟩ := m'
    subst hf
    exact .refused rfl rfl (hchain.imp_right Or.inr) rfl rfl

theorem trigger_performed (now : ℕ → ℕ) (network : ℕ → Fate) :
    Operated ids hardhat m ⟨.triggerAuction now, network⟩
      (m.perform ids hardhat ⟨.triggerAuction now, network⟩) := by
  have ht : Triggered ids hardhat m now network
      (m.perform ids hardhat ⟨.triggerAuction now, network⟩).frontend
      (m.perform ids hardhat ⟨.triggerAuction now, network⟩).chain _ := m.triggered now _
  have hcounter := m.perform_idCounter ids hardhat ⟨.triggerAuction now, network⟩
  generalize m.perform ids hardhat ⟨.triggerAuction now, network⟩ = m' at ht hcounter ⊢
  obtain ⟨f, chain⟩ := m'
  generalize hw : (m.outcome ids hardhat _).awaited = awaited at ht
  cases ht with
  | ignored hnone => exact .refused rfl rfl (Or.inl rfl) rfl rfl
  | notEnded auction hguard hshut => exact .refused rfl rfl (Or.inl rfl) rfl rfl
  | unconfirmed auction hguard hopen hfate =>
    exact .refused rfl rfl (Or.inr (Or.inl rfl)) rfl rfl
  | unread auction tx hguard hopen hfate hread =>
    exact .refused rfl rfl (Or.inr (Or.inl rfl)) rfl rfl
  | invalid auction tx tx' hguard hopen hfate hread hvalid =>
    exact .refused rfl rfl (Or.inr (Or.inl rfl)) rfl rfl
  | resolved auction tx tx' output f hguard hopen hfate hread hout hf =>
    have hauction : f.model.auction = some { auction with status := .completed } :=
      (Triggered.resolved_quiet hf).auction
    obtain ⟨published, served, bid, e, -, hid, hpayload, hevents⟩ :=
      Triggered.resolved_publishes hf
    exact .resolves auction e published.result served bid rfl hguard hopen hauction rfl hcounter
      hid hpayload hevents

/-- Every operation is one of these. -/
theorem performed (m : Market) (ids : ℕ → IdSource) (hardhat : Hardhat) (i : Invocation) :
    Operated ids hardhat m i (m.perform ids hardhat i) := by
  have hcounter := m.perform_idCounter ids hardhat i
  have hbids : i.operation.touchesAuction = false →
      Operated ids hardhat m i (m.perform ids hardhat i) := by
    intro hop
    obtain ⟨hauction, hchain⟩ := m.perform_bidding ids hardhat i hop
    exact .bids hauction hchain hcounter (m.perform_submits ids hardhat hop)
  obtain ⟨op, network⟩ := i
  cases op with
  | broadcastAuction => exact broadcast_performed network
  | triggerAuction now => exact trigger_performed now network
  | resetAuction => exact .resets _ "User initiated reset" rfl rfl hcounter rfl rfl
  | placeBid | broadcastAllBids | updateBidPower | updateBidPrice | updateParticipant
  | clearNotification => exact hbids rfl

theorem operated (m : Market) (ids : ℕ → IdSource) (hardhat : Hardhat) (o : Order) :
    Operated ids hardhat m o.invocation (m.operate ids hardhat o) :=
  m.performed ids hardhat o.invocation

end Market

end GridFlex
