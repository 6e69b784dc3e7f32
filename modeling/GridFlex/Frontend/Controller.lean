import GridFlex.Frontend.Service

/-! Embedding of `controllers/grid-flexibility-controller.ts`, every method split at its
awaits: `begin` runs a call up to its first await, `resume` from one await to the next. -/
namespace GridFlex

inductive Operation where
  | broadcastAuction
  | placeBid
  /-- `now k` is the `k`-th reading of `Date.now()` in this call. -/
  | triggerAuction (now : ℕ → ℕ)
  | resetAuction
  | broadcastAllBids
  | updateBidPower (powerMW : ℚ)
  | updateBidPrice (pricePerMW : ℚ)
  | updateParticipant (participantId : String) (powerMW pricePerMW : ℚ)
  | clearNotification

/-- What `triggerAuction` still reads of the state it took at the start. -/
structure Snapshot where
  auction : Auction
  redispatchEvent : RedispatchEvent
  participants : List Participant
  now : ℕ → ℕ

/-- A call stopped at an await, with the locals that the rest of it uses. -/
inductive Suspended where
  /-- `broadcastAuction`, at `blockchainService.startCollection()`. -/
  | startingCollection (redispatchEvent : RedispatchEvent)
  /-- `broadcastAuction`, at `service.broadcastAuction(_)`. -/
  | announcingAuction (auction : Auction)
  /-- `placeBid`, at `service.submitBid(_)`. -/
  | placingBid (auctionId : String)
  /-- `triggerAuction`, at `blockchainService.endCollection()`. -/
  | endingCollection (state : Snapshot)
  /-- `triggerAuction`, at `blockchainService.getCollectedData()`. -/
  | collectingData (state : Snapshot)
  /-- `triggerAuction`, at `service.triggerAuction(_, _)` before the service has published. -/
  | resolvingAuction (auctionId bidId : String)
  /-- `triggerAuction`, at `service.triggerAuction(_, _)` after it. -/
  | auctionResolved (auctionId : String)
  /-- `resetAuction`, at `service.resetAuction()`. -/
  | resetting
  /-- `broadcastAllBids`, at `blockchainService.submitData(_, _, _)` for `participant`. -/
  | submittingData (auctionId : String) (valid : List Participant) (nonempty : valid ≠ [])
      (participant : Participant) (rest : List Participant)
  /-- `broadcastAllBids`, at the delay before the data of `participant`. -/
  | delaying (auctionId : String) (valid : List Participant) (nonempty : valid ≠ [])
      (participant : Participant) (rest : List Participant)
  /-- `broadcastAllBids`, at `service.submitBid(_)`, with `rest` to come. -/
  | announcingBids (auctionId : String) (valid rest : List Participant)

/-- How an awaited promise settles: a transaction or a query of the blockchain service, its
rejection, or a service call or timer, which always succeed. -/
inductive Reply where
  | transaction (tx : BlockchainTransaction)
  | collected (prices quantities : List ℕ)
  | rejected
  | settled

def Participant.isValid (p : Participant) : Bool :=
  decide (p.powerMW > 0 ∧ p.pricePerMW > 0)

def Participant.draft (p : Participant) (auctionId : String) : BidDraft :=
  ⟨auctionId, p.id, p.powerMW, p.pricePerMW⟩

/-- Step 3 of `triggerAuction`: the bids come from the participants of the snapshot. -/
def Snapshot.bids (state : Snapshot) : List Bid :=
  state.participants.mapIdx fun index p =>
    ⟨"bid-" ++ p.id ++ "-" ++ toString (state.now index), state.auction.id, p.id, p.powerMW,
      p.pricePerMW, .submitted⟩

/-- Step 4 of `triggerAuction`. -/
def Snapshot.auctionInput (state : Snapshot) : AuctionInput where
  auction := state.auction
  redispatchEvent := state.redispatchEvent
  bids := state.bids
  config := { DEFAULT_AUCTION_CONFIG with costPerMWThreshold := state.redispatchEvent.costPerMW }

/-- `'bid-' + Date.now()`, read after those of the bids. -/
def Snapshot.mockBidId (state : Snapshot) : String :=
  "bid-" ++ toString (state.now state.participants.length)

def completionNotice (result : AuctionResult) : Message :=
  if result.bidStatus = .accepted then
    [.text "Auction completed. ", .number result.acceptedPowerMW, .text " MW accepted at €",
      .localeNumber result.participantPayoutEUR, .text " total."]
  else [.text "Auction completed. No competitive bids received."]

namespace Frontend

/-- Step 5 of `triggerAuction`. -/
def storeResult (f : Frontend) (auction : Auction) (result : AuctionResult) : Frontend :=
  ((f.dispatch (.setAuctionResult (some result))).dispatch
    (.setAuction (some { auction with status := .completed }))).dispatch
      (.setNotification (completionNotice result))

/-- What `broadcastAuction` does with the service's response. -/
def storeAuction (f : Frontend) (auction : Auction) : Frontend :=
  let f := f.dispatch (.setAuction (some auction))
  let f := f.dispatch (.setAuctionResult none)
  let f := f.dispatch (.setBidPlaced false)
  let f := f.dispatch (.setNotification [])
  f.dispatch (.setBid { f.model.bid with auctionId := auction.id })

def fail (f : Frontend) (message : String) : Frontend :=
  f.dispatch (.setNotification [.text message])

/-- The end of `broadcastAllBids`. -/
def finishBids (f : Frontend) (valid : List Participant) : Frontend :=
  (f.dispatch (.setBidPlaced true)).dispatch
    (.setNotification [.text "Successfully broadcasted ", .number valid.length, .text " bids"])

variable (ids : ℕ → IdSource)

/-- The second loop of `broadcastAllBids`, up to its next await. -/
def announceNext (f : Frontend) (auctionId : String) (valid : List Participant) :
    List Participant → Frontend × Option Suspended
  | [] => (f.finishBids valid, none)
  | p :: rest =>
      ((f.serviceSubmitBid ids (p.draft auctionId)).1, some (.announcingBids auctionId valid rest))

/-- A call up to its first await; `none` when it has returned. -/
def begin (f : Frontend) : Operation → Frontend × Option Suspended
  | .broadcastAuction => (f, some (.startingCollection f.model.redispatchEvent))
  | .placeBid =>
      match f.model.auction with
      | none => (f, none)
      | some auction =>
          if f.model.bid.powerMW ≤ 0 ∨ f.model.bid.pricePerMW ≤ 0 then (f, none)
          else ((f.serviceSubmitBid ids { f.model.bid with auctionId := auction.id }).1,
            some (.placingBid auction.id))
  | .triggerAuction now =>
      match f.model.auction with
      | none => (f, none)
      | some auction =>
          if f.model.bidPlaced then
            (f, some (.endingCollection
              ⟨auction, f.model.redispatchEvent, f.model.participants, now⟩))
          else (f, none)
  | .resetAuction => (f.serviceResetAuction ids, some .resetting)
  | .broadcastAllBids =>
      match f.model.auction with
      | none => (f, none)
      | some auction =>
          match f.model.participants.filter Participant.isValid with
          | [] => (f.dispatch (.setNotification [.text "No valid bids to broadcast"]), none)
          | p :: rest =>
              (f, some (.submittingData auction.id (p :: rest) (List.cons_ne_nil p rest) p rest))
  | .updateBidPower powerMW =>
      (f.dispatch (.setBid { f.model.bid with powerMW := powerMW }), none)
  | .updateBidPrice pricePerMW =>
      (f.dispatch (.setBid { f.model.bid with pricePerMW := pricePerMW }), none)
  | .updateParticipant participantId powerMW pricePerMW =>
      (f.dispatch (.updateParticipant participantId powerMW pricePerMW), none)
  | .clearNotification => (f.dispatch (.setNotification []), none)

/-- A call from its await to the next. A reply of another kind is not the awaited one, and
the call stays where it is. -/
def resume (f : Frontend) : Suspended → Reply → Frontend × Option Suspended
  | .startingCollection redispatchEvent, .transaction tx =>
      let f := f.dispatch (.addTransaction tx)
      let (f, auction) := f.serviceBroadcastAuction ids redispatchEvent.id
      (f, some (.announcingAuction auction))
  | .startingCollection _, .rejected => (f.fail "Failed to broadcast auction", none)
  | .announcingAuction auction, .settled => (f.storeAuction auction, none)
  | .placingBid _, .settled =>
      ((f.dispatch (.setBidPlaced true)).dispatch
        (.setNotification [.text "Bid placed successfully!"]), none)
  | .endingCollection state, .transaction tx =>
      (f.dispatch (.addTransaction tx), some (.collectingData state))
  | .endingCollection _, .rejected => (f.fail "Failed to trigger auction", none)
  | .collectingData state, .collected _ _ =>
      match processAuction state.auctionInput with
      | .ok output =>
          (f.storeResult state.auction output.result,
            some (.resolvingAuction state.auction.id state.mockBidId))
      | .error _ => (f.fail "Failed to trigger auction", none)
  | .collectingData _, .rejected => (f.fail "Failed to trigger auction", none)
  | .resolvingAuction auctionId bidId, .settled =>
      ((f.serviceTriggerAuction ids auctionId bidId).1, some (.auctionResolved auctionId))
  | .auctionResolved _, .settled => (f, none)
  | .resetting, .settled => (f.dispatch .resetAuction, none)
  | .submittingData auctionId valid hv _ rest, .transaction tx =>
      let f := f.dispatch (.addTransaction tx)
      match rest with
      | [] => f.announceNext ids auctionId valid valid
      | p :: rest => (f, some (.delaying auctionId valid hv p rest))
  | .submittingData auctionId valid hv _ rest, .rejected =>
      -- the error is logged and the loop goes on, without the delay
      match rest with
      | [] => f.announceNext ids auctionId valid valid
      | p :: rest => (f, some (.submittingData auctionId valid hv p rest))
  | .delaying auctionId valid hv p rest, .settled =>
      (f, some (.submittingData auctionId valid hv p rest))
  | .announcingBids auctionId valid rest, .settled => f.announceNext ids auctionId valid rest
  | call, _ => (f, some call)

end Frontend

end GridFlex
