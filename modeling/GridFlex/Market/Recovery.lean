import GridFlex.Market.Outsiders
import GridFlex.Market.Phase
import GridFlex.Market.TriggerFailure

/-! No history of faults, resets and calls of others leaves the market stuck: a new round, once
its broadcast is confirmed, goes through to its result. -/
namespace GridFlex
open Driver Transition

variable {ids : ℕ → IdSource} {hardhat : Hardhat}

/-- An await of `broadcastAllBids`. -/
def Suspended.broadcasts : Suspended → Bool
  | .submittingData _ _ _ _ _ | .delaying _ _ _ _ _ | .announcingBids _ _ _ => true
  | _ => false

theorem announceNext_broadcasts (f : Frontend) (auctionId : String)
    (valid rest : List Participant) :
    match (f.announceNext ids auctionId valid rest).2 with
    | some c' => c'.broadcasts = true
    | none => (f.announceNext ids auctionId valid rest).1.model.bidPlaced = true := by
  cases rest with
  | nil => rfl
  | cons p rest => rfl

variable (ids) in
/-- `broadcastAllBids` goes on to its end, where it sets the flag. -/
theorem resume_broadcasts (f : Frontend) {c : Suspended} (hc : c.broadcasts = true)
    {reply : Reply} (hreply : c.SettledBy reply) :
    match (f.resume ids c reply).2 with
    | some c' => c'.broadcasts = true
    | none => (f.resume ids c reply).1.model.bidPlaced = true := by
  cases c with
  | submittingData auctionId valid hv p rest =>
    obtain ⟨rfl, he⟩ | ⟨p', rest', c', rfl, he, hc'⟩ :=
      resume_submittingData ids f auctionId hv p rest hreply
    · rw [he]
      exact announceNext_broadcasts _ auctionId valid valid
    · rw [he]
      rcases hc' with rfl | rfl <;> rfl
  | delaying auctionId valid hv p rest =>
    obtain rfl := hreply
    rfl
  | announcingBids auctionId valid rest =>
    obtain rfl := hreply
    exact announceNext_broadcasts f auctionId valid rest
  | _ => cases hc

theorem announceNext_bidPlaced (f : Frontend) (hp : f.model.bidPlaced = true)
    (auctionId : String) (valid rest : List Participant) :
    (f.announceNext ids auctionId valid rest).1.model.bidPlaced = true := by
  cases rest with
  | nil => rfl
  | cons p rest => exact hp

/-- A flag that is up stays up while no reset and no new auction is stored. -/
theorem resume_bidPlaced (f : Frontend) {c : Suspended} {reply : Reply}
    (hr : c.replaces reply = false) (hp : f.model.bidPlaced = true) :
    (f.resume ids c reply).1.model.bidPlaced = true := by
  by_cases hreply : c.SettledBy reply
  case neg =>
    rw [resume_unsettled hreply]
    exact hp
  cases c with
  | startingCollection | endingCollection =>
    obtain ⟨tx, rfl⟩ | rfl := hreply
    · exact hp
    · exact hp
  | collectingData state =>
    obtain ⟨prices, quantities, rfl⟩ | rfl := hreply
    · simp only [Frontend.resume]
      cases processAuction state.auctionInput with
      | ok output => exact hp
      | error message => exact hp
    · exact hp
  | resolvingAuction auctionId bidId =>
    obtain rfl := hreply
    exact (f.serviceTriggerAuction_quiet ids auctionId bidId).bidPlaced.trans hp
  | submittingData auctionId valid hv p rest =>
    have hreceive : (f.receive reply).model.bidPlaced = true :=
      (f.receive_quiet reply).bidPlaced.trans hp
    obtain ⟨rfl, he⟩ | ⟨p', rest', c', rfl, he, -⟩ :=
      resume_submittingData ids f auctionId hv p rest hreply
    · rw [he]
      exact announceNext_bidPlaced _ hreceive auctionId valid valid
    · rw [he]
      exact hreceive
  | announcingBids auctionId valid rest =>
    obtain rfl := hreply
    exact announceNext_bidPlaced f hp auctionId valid rest
  | placingBid =>
    obtain rfl := hreply
    rfl
  | auctionResolved | delaying =>
    obtain rfl := hreply
    exact hp
  | announcingAuction | resetting =>
    obtain rfl := hreply
    cases hr

theorem begin_bidPlaced (f : Frontend) (op : Operation) :
    (f.begin ids op).1.model.bidPlaced = f.model.bidPlaced := by
  have hbegin := begin_cases ids f op
  generalize (f.begin ids op).1 = f', (f.begin ids op).2 = next at hbegin ⊢
  cases hbegin <;> rfl

theorem bidder_replaces {c : Suspended} {auctionId : String} {announced : Bool}
    (hrole : c.role = .bidder auctionId announced) (reply : Reply) :
    c.replaces reply = false := by
  cases c with
  | announcingAuction | resetting => cases hrole
  | _ => rfl

namespace Market

variable {m : Market}

/-- With a valid participant the flag is up in the end, whatever the node does. -/
theorem perform_broadcastAllBids {auction : Auction} (ha : m.frontend.model.auction = some auction)
    (hvalid : ∃ p ∈ m.frontend.model.participants, p.isValid = true) (network : ℕ → Fate) :
    (m.perform ids hardhat ⟨.broadcastAllBids, network⟩).frontend.model.bidPlaced = true := by
  obtain ⟨p₀, hp₀, hvalid₀⟩ := hvalid
  have hne : m.frontend.model.participants.filter Participant.isValid ≠ [] := by
    intro he
    exact List.not_mem_nil (he ▸ List.mem_filter.mpr ⟨hp₀, hvalid₀⟩)
  obtain ⟨p, rest, hfilter⟩ := List.exists_cons_of_ne_nil hne
  have hbegin : ∃ hv, m.frontend.begin ids .broadcastAllBids =
      (m.frontend, some (.submittingData auction.id (p :: rest) hv p rest)) := by
    refine ⟨List.cons_ne_nil p rest, ?_⟩
    simp only [Frontend.begin, ha]
    split
    · next h => simp [hfilter] at h
    · next q rest' h =>
      obtain ⟨rfl, rfl⟩ := List.cons.inj (hfilter.symm.trans h)
      rfl
  obtain ⟨hv, hbegin⟩ := hbegin
  apply outcome_rule (I := fun _ _ c => c.broadcasts = true)
    (Q := fun f _ => f.model.bidPlaced = true)
  · intro c hc
    rw [hbegin] at hc
    cases hc
    rfl
  · intro hnone
    rw [hbegin] at hnone
    cases hnone
  · intro f g c c' hc hnext
    have h := resume_broadcasts ids f hc (hardhat.serve_settledBy network g c)
    rwa [hnext] at h
  · intro f g c hc hnext
    have h := resume_broadcasts ids f hc (hardhat.serve_settledBy network g c)
    rwa [hnext] at h

theorem perform_bidPlaced (i : Invocation) (hop : i.operation.touchesAuction = false)
    (hp : m.frontend.model.bidPlaced = true) :
    (m.perform ids hardhat i).frontend.model.bidPlaced = true := by
  apply outcome_rule (I := fun f _ c => f.model.bidPlaced = true ∧
      ∃ auctionId announced, c.role = .bidder auctionId announced)
    (Q := fun f _ => f.model.bidPlaced = true)
  · exact fun c hc => ⟨(begin_bidPlaced m.frontend i.operation).trans hp, begin_bidder hop hc⟩
  · exact fun _ => (begin_bidPlaced m.frontend i.operation).trans hp
  · rintro f g c c' ⟨hf, auctionId, announced, hrole⟩ hc'
    exact ⟨resume_bidPlaced f (bidder_replaces hrole _) hf, auctionId, resume_bidder hrole hc'⟩
  · rintro f g c ⟨hf, auctionId, announced, hrole⟩ -
    exact resume_bidPlaced f (bidder_replaces hrole _) hf

end Market

/-- Bids and edits on the page, with any faults of the node, and calls of others than the
deployer. -/
def MarketAction.background {Env : Type} (deployer : Address) : MarketAction Env → Bool
  | .perform i => !i.operation.touchesAuction
  | .external tx => decide (tx.sender ≠ deployer)

/-- The page and the contract in the middle of a round. -/
structure Market.InRound (deployer : Address) (auction : Auction) (m : Market) : Prop where
  owner : m.chain.collector.owner = deployer
  collecting : m.chain.collector.collecting = true
  auction : m.frontend.model.auction = some auction

section Runs

variable {Env : Type} {self : Address}
  {fromExternal : Env → ExternalEuint32 → Bytes → Except String Euint32}
  {deployer : Address} {auction : Auction} {m : Market}

theorem Market.InRound.perform (h : m.InRound deployer auction) (i : Invocation)
    (hop : i.operation.touchesAuction = false) :
    (m.perform ids hardhat i).InRound deployer auction := by
  obtain ⟨ha, hc⟩ := m.perform_bidding ids hardhat i hop
  exact ⟨by rw [hc, h.owner], by rw [hc, h.collecting], ha.trans h.auction⟩

theorem Market.InRound.step (h : m.InRound deployer auction) {a : MarketAction Env}
    (ha : a.background deployer = true) :
    (m.step ids hardhat self fromExternal a).InRound deployer auction := by
  cases a with
  | perform i => exact h.perform i (by simpa [MarketAction.background] using ha)
  | external tx =>
    have hs : tx.sender ≠ m.chain.collector.owner := by
      rw [h.owner]
      simpa [MarketAction.background] using ha
    have hsame : SamePhase (attempt self fromExternal m.chain tx) m.chain :=
      SamePhase.attempt_outsider ⟨rfl, rfl⟩ hs
    exact ⟨hsame.owner.trans h.owner, hsame.collecting.trans h.collecting, h.auction⟩

theorem Market.InRound.run (h : m.InRound deployer auction) {actions : List (MarketAction Env)}
    (hb : ∀ a ∈ actions, a.background deployer = true) :
    (run (Market.step ids hardhat self fromExternal) m actions).InRound deployer auction := by
  induction actions generalizing m with
  | nil => exact h
  | cons a actions ih =>
    exact ih (h.step (hb a List.mem_cons_self)) fun b hm => hb b (List.mem_cons_of_mem a hm)

theorem step_bidPlaced (hp : m.frontend.model.bidPlaced = true) {a : MarketAction Env}
    (ha : a.background deployer = true) :
    (m.step ids hardhat self fromExternal a).frontend.model.bidPlaced = true := by
  cases a with
  | perform i => exact Market.perform_bidPlaced i (by simpa [MarketAction.background] using ha) hp
  | external tx => exact hp

theorem run_bidPlaced (hp : m.frontend.model.bidPlaced = true) {actions : List (MarketAction Env)}
    (hb : ∀ a ∈ actions, a.background deployer = true) :
    (run (Market.step ids hardhat self fromExternal) m
      actions).frontend.model.bidPlaced = true := by
  induction actions generalizing m with
  | nil => exact hp
  | cons a actions ih =>
    exact ih (step_bidPlaced hp (hb a List.mem_cons_self))
      fun b hm => hb b (List.mem_cons_of_mem a hm)

theorem run_owner (ids : ℕ → IdSource) (hardhat : Hardhat) (self : Address)
    (fromExternal : Env → ExternalEuint32 → Bytes → Except String Euint32) (m : Market)
    (actions : List (MarketAction Env)) :
    (run (Market.step ids hardhat self fromExternal) m actions).chain.collector.owner =
      m.chain.collector.owner := by
  apply run_invariant (I := fun m' : Market => m'.chain.collector.owner = m.chain.collector.owner)
  · intro m' a h
    cases a with
    | perform i => exact (m'.perform_owner i).trans h
    | external tx => exact (attempt_owner m'.chain tx).trans h
  · rfl

end Runs

/-- A round that goes through: the auction of the page is completed, its result is that of the
participants as they stood at the trigger, and the contract is closed. -/
structure Completed (before : Market) (now : ℕ → ℕ) (after : Market) : Prop where
  active : before.frontend.model.isAuctionActive = true
  auction : after.frontend.model.auction =
    before.frontend.model.auction.map fun auction => { auction with status := .completed }
  result : ∃ auction output, before.frontend.model.auction = some auction ∧
    processAuction (before.frontend.snapshot auction now).auctionInput = .ok output ∧
    after.frontend.model.auctionResult = some output.result
  closed : after.chain.collector.collecting = false

/-- A trigger in a round with a bid, when the node answers. -/
theorem Market.InRound.trigger {auction : Auction} {m : Market}
    {redispatchEvent : RedispatchEvent} (h : m.InRound hardhat.wallet auction)
    (hs : Standing redispatchEvent m.frontend) (hpower : 0 < redispatchEvent.powerMW)
    (hactive : auction.status = .active) (hp : m.frontend.model.bidPlaced = true) (now : ℕ → ℕ)
    (receipts : ℕ → BlockchainTransaction) :
    Completed m now (m.operate ids hardhat ⟨.triggerAuction now, receipts⟩) := by
  have ht : Triggered ids hardhat m now (fun k => .confirms (receipts k))
      (m.operate ids hardhat ⟨.triggerAuction now, receipts⟩).frontend
      (m.operate ids hardhat ⟨.triggerAuction now, receipts⟩).chain _ := m.triggered now _
  generalize m.operate ids hardhat ⟨.triggerAuction now, receipts⟩ = m' at ht ⊢
  obtain ⟨f, chain⟩ := m'
  generalize (m.outcome ids hardhat _).awaited = awaited at ht
  cases ht with
  | ignored hnone => exact absurd ⟨h.auction, hp⟩ (hnone auction)
  | notEnded auction' hguard hshut =>
    rcases hshut with hshut | hfate
    · exact absurd ⟨h.owner.symm, h.collecting⟩ hshut
    · cases hfate
  | unconfirmed auction' hguard hopen hfate => cases hfate
  | unread auction' tx hguard hopen hfate hread => exact absurd rfl (hread _)
  | invalid auction' tx tx' hguard hopen hfate hread hvalid =>
    exact absurd ((Market.snapshot_valid_iff hs auction' now).mpr
      (hs.redispatchEvent ▸ hpower)) hvalid
  | resolved auction' tx tx' output f hguard hopen hfate hread hout hf =>
    obtain rfl : auction = auction' := Option.some.inj (h.auction.symm.trans hguard.auction)
    have hq := Triggered.resolved_quiet hf
    refine ⟨Market.isAuctionActive_iff.mpr ⟨auction, h.auction, hactive⟩, ?_,
      ⟨auction, output, h.auction, hout, hq.auctionResult⟩, rfl⟩
    rw [h.auction]
    exact hq.auction

/-- After whatever history, a broadcast that is confirmed starts a round that every later trigger
with an answering node completes, whatever else is bid, edited and submitted meanwhile. -/
theorem round_completes {Env : Type} (ids : ℕ → IdSource) (hardhat : Hardhat) (self : Address)
    (fromExternal : Env → ExternalEuint32 → Bytes → Except String Euint32)
    (grants : List (Euint32 × Address)) (redispatchEvent : RedispatchEvent)
    (hpower : 0 < redispatchEvent.powerMW) (actions early late : List (MarketAction Env))
    (hearly : ∀ a ∈ early, a.background hardhat.wallet = true)
    (hlate : ∀ a ∈ late, a.background hardhat.wallet = true) (receipts : ℕ → BlockchainTransaction)
    (network : ℕ → Fate) (now : ℕ → ℕ) :
    let step := Market.step ids hardhat self fromExternal
    let m := run step (.initial hardhat.wallet grants redispatchEvent) actions
    let bidding := run step (m.operate ids hardhat ⟨.broadcastAuction, receipts⟩) early
    let placed := run step (bidding.perform ids hardhat ⟨.broadcastAllBids, network⟩) late
    (∃ p ∈ bidding.frontend.model.participants, p.isValid = true) →
      Completed placed now (placed.operate ids hardhat ⟨.triggerAuction now, receipts⟩) := by
  intro step m bidding placed hvalid
  have howner : hardhat.wallet = m.chain.collector.owner :=
    (run_owner ids hardhat self fromExternal (.initial hardhat.wallet grants redispatchEvent)
      actions).symm
  obtain ⟨hcollecting, auction, hauction, hactive⟩ :=
    m.operate_broadcastAuction ids howner receipts
  have hopened : (m.operate ids hardhat ⟨.broadcastAuction, receipts⟩).InRound hardhat.wallet
      auction := ⟨(m.perform_owner _).trans howner.symm, hcollecting, hauction⟩
  have hbidding : bidding.InRound hardhat.wallet auction := hopened.run hearly
  have hplaced : placed.InRound hardhat.wallet auction :=
    (hbidding.perform ⟨.broadcastAllBids, network⟩ rfl).run hlate
  have hflag : placed.frontend.model.bidPlaced = true :=
    run_bidPlaced (Market.perform_broadcastAllBids hbidding.auction hvalid network) hlate
  have hs : Standing redispatchEvent placed.frontend := by
    have hrun := run_standing ids hardhat self fromExternal hardhat.wallet grants redispatchEvent
      (actions ++ .perform (Order.invocation ⟨.broadcastAuction, receipts⟩) ::
        (early ++ .perform ⟨.broadcastAllBids, network⟩ :: late))
    rw [run_append, run_cons, run_append, run_cons] at hrun
    exact hrun
  exact hplaced.trigger hs hpower hactive hflag now receipts

/-- The round completes although the collection was left open, the data of the participants does
not get through, and a stranger submits to the contract. -/
theorem activeWithBid_completes :
    let step := Market.step (fun _ => .server) ⟨0, fun _ => true⟩ 1 fun (_ : Unit) handle _ =>
      .ok handle
    let reset : List (MarketAction Unit) := activeWithBid ++ [.perform ⟨.resetAuction, fun _ =>
      .drops⟩]
    let late : List (MarketAction Unit) := [.external ⟨7, (), .submitData 1 [] 2 []⟩,
      .perform ⟨.updateParticipant "participant-1" 60 20, fun _ => .drops⟩]
    let m := run step (.initial 0 [] mockRedispatchEvent) reset
    let bidding := m.operate (fun _ => .server) ⟨0, fun _ => true⟩
      ⟨.broadcastAuction, fun _ => mockTransaction⟩
    let placed := run step (bidding.perform (fun _ => .server) ⟨0, fun _ => true⟩
      ⟨.broadcastAllBids, fun _ => .drops⟩) late
    Completed placed (fun k => k) (placed.operate (fun _ => .server) ⟨0, fun _ => true⟩
      ⟨.triggerAuction fun k => k, fun _ => mockTransaction⟩) :=
  round_completes _ ⟨0, fun _ => true⟩ 1 _ [] mockRedispatchEvent (by decide) _ [] _
    (by simp) (by simp [MarketAction.background, Operation.touchesAuction]) _ _ _
    ⟨⟨"participant-1", "Participant 1", 50, 10⟩, by decide +kernel, by decide⟩

end GridFlex
