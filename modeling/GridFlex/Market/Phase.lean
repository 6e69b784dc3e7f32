import GridFlex.Market.Trigger

/-! The phase of the contract against the phase of the page, over sequential runs by the owner:
which operations keep them together. -/
namespace GridFlex
open Driver Transition

/-- The contract collects exactly while the page shows an active auction. -/
def Market.InPhase (m : Market) : Prop :=
  m.chain.collector.collecting = true ↔ m.frontend.model.isAuctionActive = true

instance : DecidablePred Market.InPhase := fun m =>
  inferInstanceAs (Decidable (m.chain.collector.collecting = true ↔
    m.frontend.model.isAuctionActive = true))

/-- No reset of an active auction, and no trigger of one whose demand the algorithm rejects. -/
def Market.KeepsPhase (m : Market) (o : Order) : Prop :=
  match o.operation with
  | .resetAuction => m.frontend.model.isAuctionActive = false
  | .triggerAuction _ =>
      m.frontend.model.canTriggerAuction = true → 0 < m.frontend.model.redispatchEvent.powerMW
  | _ => True

/-- Operations that leave the auction of the model alone. -/
def Operation.touchesAuction : Operation → Bool
  | .broadcastAuction | .triggerAuction _ | .resetAuction => true
  | _ => false

variable {ids : ℕ → IdSource} {hardhat : Hardhat} {m : Market}

theorem begin_auction (f : Frontend) (op : Operation) :
    (f.begin ids op).1.model.auction = f.model.auction := by
  have hseg : Segment ids f none none (f.begin ids op).1 (f.begin ids op).2 false :=
    begin_segment f op
  rcases hseg.writes with ⟨ha, -, -⟩ | ⟨_, hc, -⟩ | ⟨_, _, hc, -⟩ | ⟨hc, -⟩
  · exact ha
  · cases hc
  · cases hc
  · cases hc

theorem begin_bidder {f : Frontend} {op : Operation} (hop : op.touchesAuction = false)
    {c : Suspended} (hc : (f.begin ids op).2 = some c) :
    ∃ auctionId announced, c.role = .bidder auctionId announced := by
  have hbegin := begin_cases ids f op
  rw [hc] at hbegin
  generalize (f.begin ids op).1 = f' at hbegin
  cases hbegin with
  | placeBid auction => exact ⟨auction.id, true, rfl⟩
  | broadcastAllBids auction => exact ⟨auction.id, false, rfl⟩
  | broadcastAuction | triggerAuction | resetAuction => cases hop

theorem resume_auction (f : Frontend) {c : Suspended} {auctionId : String} {announced : Bool}
    (hrole : c.role = .bidder auctionId announced) (reply : Reply) :
    (f.resume ids c reply).1.model.auction = f.model.auction := by
  have hseg : Segment ids f (some reply) (some c) (f.resume ids c reply).1
      (f.resume ids c reply).2 (c.replaces reply) := resume_segment f c reply
  rcases hseg.writes with ⟨ha, -, -⟩ | ⟨_, hc, -⟩ | ⟨_, _, hc, -⟩ | ⟨hc, -⟩
  · exact ha
  · cases hc
    cases hrole
  · cases hc
    cases hrole
  · cases hc
    cases hrole

theorem announceNext_bidder {f : Frontend} {auctionId : String} {valid rest : List Participant}
    {c' : Suspended} (hc' : (f.announceNext ids auctionId valid rest).2 = some c') :
    c'.role = .bidder auctionId true := by
  cases rest with
  | nil => cases hc'
  | cons p rest =>
    cases hc'
    rfl

/-- A call that bids goes on bidding for the same auction until it returns. -/
theorem resume_bidder {f : Frontend} {c c' : Suspended} {auctionId : String} {announced : Bool}
    (hrole : c.role = .bidder auctionId announced) {reply : Reply}
    (hc' : (f.resume ids c reply).2 = some c') :
    ∃ announced', c'.role = .bidder auctionId announced' := by
  by_cases hreply : c.SettledBy reply
  case neg =>
    rw [resume_unsettled hreply] at hc'
    cases hc'
    exact ⟨announced, hrole⟩
  cases c with
  | placingBid id =>
    obtain rfl := hreply
    cases hc'
  | submittingData id valid hv p rest =>
    cases hrole
    obtain ⟨rfl, he⟩ | ⟨p', rest', c₀, rfl, he, hc₀⟩ :=
      resume_submittingData ids f auctionId hv p rest hreply
    · rw [he] at hc'
      exact ⟨true, announceNext_bidder hc'⟩
    · rw [he] at hc'
      cases hc'
      rcases hc₀ with rfl | rfl
      · exact ⟨false, rfl⟩
      · exact ⟨false, rfl⟩
  | delaying id valid hv p rest =>
    cases hrole
    obtain rfl := hreply
    cases hc'
    exact ⟨false, rfl⟩
  | announcingBids id valid rest =>
    cases hrole
    obtain rfl := hreply
    exact ⟨true, announceNext_bidder hc'⟩
  | _ => cases hrole

theorem serve_bidder {c : Suspended} {auctionId : String} {announced : Bool}
    (hrole : c.role = .bidder auctionId announced) (network : ℕ → Fate) (g : Gateway) :
    (hardhat.serve network g c).1.chain = g.chain := by
  cases c with
  | placingBid | delaying | announcingBids => rfl
  | submittingData => exact (hardhat.submitData_spec _ g _ _ _).1
  | _ => simp [Suspended.role] at hrole

namespace Market

/-- Bids and edits touch neither the auction of the model nor the contract. -/
theorem perform_bidding (m : Market) (ids : ℕ → IdSource) (hardhat : Hardhat) (i : Invocation)
    (hop : i.operation.touchesAuction = false) :
    (m.perform ids hardhat i).frontend.model.auction = m.frontend.model.auction ∧
      (m.perform ids hardhat i).chain = m.chain := by
  apply outcome_rule
    (I := fun f g c => (f.model.auction = m.frontend.model.auction ∧ g.chain = m.chain) ∧
      ∃ auctionId announced, c.role = .bidder auctionId announced)
    (Q := fun f g => f.model.auction = m.frontend.model.auction ∧ g.chain = m.chain)
  · intro c hc
    exact ⟨⟨begin_auction m.frontend i.operation, rfl⟩, begin_bidder hop hc⟩
  · exact fun _ => ⟨begin_auction m.frontend i.operation, rfl⟩
  · rintro f g c c' ⟨⟨ha, hg⟩, auctionId, announced, hrole⟩ hc'
    refine ⟨⟨(resume_auction f hrole _).trans ha, (serve_bidder hrole _ g).trans hg⟩, auctionId, ?_⟩
    exact resume_bidder hrole hc'
  · rintro f g c ⟨⟨ha, hg⟩, auctionId, announced, hrole⟩ -
    exact ⟨(resume_auction f hrole _).trans ha, (serve_bidder hrole _ g).trans hg⟩

theorem perform_resetAuction (network : ℕ → Fate) :
    m.perform ids hardhat ⟨.resetAuction, network⟩ =
      ⟨(m.frontend.serviceResetAuction ids).dispatch .resetAuction, m.chain⟩ := rfl

/-- A broadcast whose transaction is confirmed. -/
theorem perform_broadcastAuction (m : Market) (ids : ℕ → IdSource) {hardhat : Hardhat}
    {collector : FHEDataCollector} {network : ℕ → Fate} {tx : BlockchainTransaction}
    (hstart : m.chain.collector.startCollection hardhat.wallet = .ok collector)
    (hfate : network 0 = .confirms tx) :
    m.perform ids hardhat ⟨.broadcastAuction, network⟩ =
      let s := (m.frontend.dispatch (.addTransaction tx)).serviceBroadcastAuction ids
        m.frontend.model.redispatchEvent.id
      ⟨s.1.storeAuction s.2, { m.chain with collector := collector }⟩ := by
  simp only [perform, outcome, Frontend.begin, Option.map_some, Option.getD_some,
    Suspended.awaits, drive_succ, Hardhat.serve, Hardhat.startCollection, Hardhat.transact, hstart,
    hfate, Frontend.resume, drive_none]

/-- A broadcast whose transaction fails, or loses its receipt. -/
theorem perform_broadcastAuction_rejected (m : Market) (ids : ℕ → IdSource) {hardhat : Hardhat}
    {network : ℕ → Fate} (h : hardhat.wallet ≠ m.chain.collector.owner ∨
      ∀ tx, network 0 ≠ .confirms tx) :
    (m.perform ids hardhat ⟨.broadcastAuction, network⟩).frontend =
        m.frontend.fail "Failed to broadcast auction" ∧
      ((m.perform ids hardhat ⟨.broadcastAuction, network⟩).chain = m.chain ∨
        network 0 = .losesReceipt) := by
  simp only [perform, outcome, Frontend.begin, Option.map_some, Option.getD_some,
    Suspended.awaits, drive_succ, Hardhat.serve, Hardhat.startCollection]
  cases hstart : m.chain.collector.startCollection hardhat.wallet with
  | ok collector =>
    have howner : hardhat.wallet = m.chain.collector.owner :=
      (FHEDataCollector.startCollection_ok.mp hstart).1
    cases hfate : network 0 with
    | confirms tx => exact absurd hfate (h.resolve_left (not_not_intro howner) tx)
    | losesReceipt => exact ⟨rfl, Or.inr rfl⟩
    | drops => exact ⟨rfl, Or.inl rfl⟩
  | error message => exact ⟨rfl, Or.inl rfl⟩

/-- The owner's broadcast puts both sides into the collecting phase. -/
theorem operate_broadcastAuction (m : Market) (ids : ℕ → IdSource) {hardhat : Hardhat}
    (howner : hardhat.wallet = m.chain.collector.owner) (receipts : ℕ → BlockchainTransaction) :
    let m' := m.operate ids hardhat ⟨.broadcastAuction, receipts⟩
    m'.chain.collector.collecting = true ∧
      ∃ auction, m'.frontend.model.auction = some auction ∧ auction.status = .active := by
  have hstart := FHEDataCollector.startCollection_ok.mpr ⟨howner, rfl⟩
  rw [operate, Order.invocation, m.perform_broadcastAuction ids hstart rfl]
  exact ⟨rfl, _, rfl, rfl⟩

theorem isAuctionActive_iff {state : GridFlexibilityState} :
    state.isAuctionActive = true ↔
      ∃ auction, state.auction = some auction ∧ auction.status = .active := by
  simp [GridFlexibilityState.isAuctionActive]

theorem canTriggerAuction_iff :
    m.frontend.model.canTriggerAuction = true ↔
      ∃ auction, m.Guard auction ∧ auction.status = .active := by
  rw [GridFlexibilityState.canTriggerAuction, Bool.and_eq_true, isAuctionActive_iff]
  constructor
  · rintro ⟨hp, auction, ha, hs⟩
    exact ⟨auction, ⟨ha, hp⟩, hs⟩
  · rintro ⟨auction, hguard, hs⟩
    exact ⟨hguard.bidPlaced, auction, hguard.auction, hs⟩

/-- A trigger keeps the phases together unless it ends the collection and then fails. -/
theorem trigger_inPhase_iff {redispatchEvent : RedispatchEvent}
    (hs : Standing redispatchEvent m.frontend) (howner : hardhat.wallet = m.chain.collector.owner)
    (h : m.InPhase) (now : ℕ → ℕ) (receipts : ℕ → BlockchainTransaction) :
    (m.operate ids hardhat ⟨.triggerAuction now, receipts⟩).InPhase ↔
      m.KeepsPhase ⟨.triggerAuction now, receipts⟩ := by
  have ht : Triggered ids hardhat m now (fun k => .confirms (receipts k))
      (m.operate ids hardhat ⟨.triggerAuction now, receipts⟩).frontend
      (m.operate ids hardhat ⟨.triggerAuction now, receipts⟩).chain _ := m.triggered now _
  generalize m.operate ids hardhat ⟨.triggerAuction now, receipts⟩ = m' at ht ⊢
  obtain ⟨f, chain⟩ := m'
  generalize hw : (m.outcome ids hardhat _).awaited = awaited at ht
  simp only [KeepsPhase, canTriggerAuction_iff]
  cases ht with
  | ignored hnone =>
    refine iff_of_true h ?_
    rintro ⟨auction, hguard, -⟩
    exact absurd hguard (hnone auction)
  | notEnded auction hguard hshut =>
    refine iff_of_true h ?_
    rintro ⟨auction', hguard', hactive⟩
    rcases hshut with hshut | hfate
    · have hcollecting : m.chain.collector.collecting = true :=
        h.mpr (isAuctionActive_iff.mpr ⟨auction', hguard'.auction, hactive⟩)
      exact absurd ⟨howner, hcollecting⟩ hshut
    · cases hfate
  | unconfirmed auction hguard hopen hfate => cases hfate
  | unread auction tx hguard hopen hfate hread => exact absurd rfl (hread _)
  | invalid auction tx tx' hguard hopen hfate hread hvalid =>
    obtain ⟨auction', ha', hactive⟩ := isAuctionActive_iff.mp (h.mp hopen.collecting)
    apply iff_of_false
    · intro h'
      have hshut : m.chain.closed.collector.collecting = true := h'.mpr (h.mp hopen.collecting)
      cases hshut
    · intro hdemand
      exact hvalid ((snapshot_valid_iff hs auction now).mpr
        (hdemand ⟨auction', ⟨ha', hguard.bidPlaced⟩, hactive⟩))
  | resolved auction tx tx' output f hguard hopen hfate hread hout hf =>
    apply iff_of_true
    · have hauction : f.model.auction = some { auction with status := .completed } :=
        (Triggered.resolved_quiet hf).auction
      apply iff_of_false
      · intro hcollecting
        cases hcollecting
      · intro hactive
        obtain ⟨auction', ha', hs'⟩ := isAuctionActive_iff.mp hactive
        cases hauction.symm.trans ha'
        cases hs'
    · intro _
      exact (snapshot_valid_iff hs auction now).mp (processAuction_inv hout).1

theorem operate_inPhase_iff {redispatchEvent : RedispatchEvent}
    (hs : Standing redispatchEvent m.frontend) (howner : hardhat.wallet = m.chain.collector.owner)
    (h : m.InPhase) (o : Order) : (m.operate ids hardhat o).InPhase ↔ m.KeepsPhase o := by
  obtain ⟨op, receipts⟩ := o
  have hbidding : op.touchesAuction = false →
      (m.operate ids hardhat ⟨op, receipts⟩).InPhase := by
    intro hop
    obtain ⟨ha, hc⟩ := m.perform_bidding ids hardhat (Order.invocation ⟨op, receipts⟩) hop
    simp only [InPhase, operate, hc, GridFlexibilityState.isAuctionActive, ha]
    exact h
  cases op with
  | broadcastAuction =>
    obtain ⟨hcollecting, hauction⟩ := m.operate_broadcastAuction ids howner receipts
    exact iff_of_true (iff_of_true hcollecting (isAuctionActive_iff.mpr hauction)) trivial
  | triggerAuction now => exact trigger_inPhase_iff hs howner h now receipts
  | resetAuction =>
    have hreset : (m.operate ids hardhat ⟨.resetAuction, receipts⟩).InPhase ↔
        (m.chain.collector.collecting = true ↔ false = true) := by
      rw [operate, Order.invocation, perform_resetAuction]
      rfl
    have hphase : m.chain.collector.collecting = true ↔
        m.frontend.model.isAuctionActive = true := h
    rw [hreset, hphase]
    simp [KeepsPhase]
  | placeBid | broadcastAllBids | updateBidPower | updateBidPrice | updateParticipant
  | clearNotification => exact iff_of_true (hbidding rfl) trivial

end Market

/-- Over every sequential run by the owner from deployment, contract and page are in phase
after each operation if and only if no operation is one that breaks the phase. -/
theorem phases_agree_iff (ids : ℕ → IdSource) (hardhat : Hardhat)
    (grants : List (Euint32 × Address)) (redispatchEvent : RedispatchEvent) (orders : List Order) :
    let m₀ := Market.initial hardhat.wallet grants redispatchEvent
    (∀ before after, orders = before ++ after →
        (run (Market.operate ids hardhat) m₀ before).InPhase) ↔
      Along (Market.operate ids hardhat) Market.KeepsPhase m₀ orders := by
  intro m₀
  apply forall_prefix_iff_along
    (J := fun m => Standing redispatchEvent m.frontend ∧ hardhat.wallet = m.chain.collector.owner)
  · rintro m o ⟨hs, howner⟩
    exact ⟨hs.perform o.invocation, howner.trans (m.perform_owner o.invocation).symm⟩
  · rintro m o ⟨hs, howner⟩ h
    exact Market.operate_inPhase_iff hs howner h o
  · exact ⟨⟨rfl, rfl⟩, rfl⟩
  · exact iff_of_false Bool.false_ne_true Bool.false_ne_true

/-- A reset makes no contract call: the collection stays open without an auction. -/
theorem resetAuction_outOfPhase :
    ¬(run (Market.operate (fun _ => .server) ⟨0, fun _ => true⟩)
      (Market.initial 0 [] mockRedispatchEvent)
      [⟨.broadcastAuction, fun _ => mockTransaction⟩,
        ⟨.resetAuction, fun _ => mockTransaction⟩]).InPhase := by
  decide +kernel

end GridFlex
