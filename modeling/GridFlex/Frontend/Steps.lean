import GridFlex.Frontend.Controller

/-! The cases of `begin` and `resume`: what the start of a call and the settling of an await can
do, with the guards under which they do it. -/
namespace GridFlex

/-- Does the call return at once if the model holds no auction? -/
def Operation.needsAuction : Operation → Bool
  | .placeBid | .triggerAuction _ | .broadcastAllBids => true
  | _ => false

/-- The start of a call: the page and the await that it stops at. -/
inductive Begun (ids : ℕ → IdSource) (f : Frontend) :
    Operation → Frontend → Option Suspended → Prop where
  | broadcastAuction :
      Begun ids f .broadcastAuction f (some (.startingCollection f.model.redispatchEvent))
  | noAuction (op : Operation) (hop : op.needsAuction = true) (hauction : f.model.auction = none) :
      Begun ids f op f none
  | blankBid (auction : Auction) (hauction : f.model.auction = some auction)
      (hbid : f.model.bid.powerMW ≤ 0 ∨ f.model.bid.pricePerMW ≤ 0) : Begun ids f .placeBid f none
  | placeBid (auction : Auction) (hauction : f.model.auction = some auction)
      (hbid : ¬(f.model.bid.powerMW ≤ 0 ∨ f.model.bid.pricePerMW ≤ 0)) :
      Begun ids f .placeBid (f.serviceSubmitBid ids { f.model.bid with auctionId := auction.id }).1
        (some (.placingBid auction.id))
  | notPlaced (now : ℕ → ℕ) (hplaced : f.model.bidPlaced = false) :
      Begun ids f (.triggerAuction now) f none
  | triggerAuction (now : ℕ → ℕ) (auction : Auction) (hauction : f.model.auction = some auction)
      (hplaced : f.model.bidPlaced = true) :
      Begun ids f (.triggerAuction now) f (some (.endingCollection
        ⟨auction, f.model.redispatchEvent, f.model.participants, now⟩))
  | resetAuction : Begun ids f .resetAuction (f.serviceResetAuction ids) (some .resetting)
  | nothingValid (auction : Auction) (hauction : f.model.auction = some auction)
      (hvalid : f.model.participants.filter Participant.isValid = []) :
      Begun ids f .broadcastAllBids
        (f.dispatch (.setNotification [.text "No valid bids to broadcast"])) none
  | broadcastAllBids (auction : Auction) (p : Participant) (rest : List Participant)
      (hauction : f.model.auction = some auction)
      (hvalid : f.model.participants.filter Participant.isValid = p :: rest) :
      Begun ids f .broadcastAllBids f
        (some (.submittingData auction.id (p :: rest) (List.cons_ne_nil p rest) p rest))
  | updateBidPower (powerMW : ℚ) :
      Begun ids f (.updateBidPower powerMW)
        (f.dispatch (.setBid { f.model.bid with powerMW := powerMW })) none
  | updateBidPrice (pricePerMW : ℚ) :
      Begun ids f (.updateBidPrice pricePerMW)
        (f.dispatch (.setBid { f.model.bid with pricePerMW := pricePerMW })) none
  | updateParticipant (participantId : String) (powerMW pricePerMW : ℚ) :
      Begun ids f (.updateParticipant participantId powerMW pricePerMW)
        (f.dispatch (.updateParticipant participantId powerMW pricePerMW)) none
  | clearNotification : Begun ids f .clearNotification (f.dispatch (.setNotification [])) none

theorem begin_cases (ids : ℕ → IdSource) (f : Frontend) (op : Operation) :
    Begun ids f op (f.begin ids op).1 (f.begin ids op).2 := by
  cases op with
  | broadcastAuction => exact .broadcastAuction
  | placeBid =>
    simp only [Frontend.begin]
    cases hauction : f.model.auction with
    | none => exact .noAuction _ rfl hauction
    | some auction =>
      dsimp only
      split
      · next hbid => exact .blankBid auction hauction hbid
      · next hbid => exact .placeBid auction hauction hbid
  | triggerAuction now =>
    simp only [Frontend.begin]
    cases hauction : f.model.auction with
    | none => exact .noAuction _ rfl hauction
    | some auction =>
      dsimp only
      split
      · next hplaced => exact .triggerAuction now auction hauction hplaced
      · next hplaced => exact .notPlaced now ((Bool.not_eq_true _).mp hplaced)
  | resetAuction => exact .resetAuction
  | broadcastAllBids =>
    simp only [Frontend.begin]
    cases hauction : f.model.auction with
    | none => exact .noAuction _ rfl hauction
    | some auction =>
      dsimp only
      split
      · next hvalid => exact .nothingValid auction hauction hvalid
      · next p rest hvalid => exact .broadcastAllBids auction p rest hauction hvalid
  | updateBidPower powerMW => exact .updateBidPower powerMW
  | updateBidPrice pricePerMW => exact .updateBidPrice pricePerMW
  | updateParticipant participantId powerMW pricePerMW =>
    exact .updateParticipant participantId powerMW pricePerMW
  | clearNotification => exact .clearNotification

/-- The replies that settle an await. -/
def Suspended.SettledBy : Suspended → Reply → Prop
  | .startingCollection _, reply | .endingCollection _, reply
  | .submittingData _ _ _ _ _, reply => (∃ tx, reply = .transaction tx) ∨ reply = .rejected
  | .collectingData _, reply =>
      (∃ prices quantities, reply = .collected prices quantities) ∨ reply = .rejected
  | _, reply => reply = .settled

variable {ids : ℕ → IdSource}

theorem resume_unsettled {f : Frontend} {c : Suspended} {reply : Reply}
    (h : ¬c.SettledBy reply) : f.resume ids c reply = (f, some c) := by
  cases c <;> cases reply <;> first | rfl | simp [Suspended.SettledBy] at h

/-- The transactions that a reply brings. -/
def Reply.receipts : Reply → List BlockchainTransaction
  | .transaction tx => [tx]
  | _ => []

/-- The page with the transaction of a reply, if there is one. -/
def Frontend.receive (f : Frontend) : Reply → Frontend
  | .transaction tx => f.dispatch (.addTransaction tx)
  | _ => f

@[simp] theorem receive_auction (f : Frontend) (reply : Reply) :
    (f.receive reply).model.auction = f.model.auction := by
  cases reply <;> rfl

@[simp] theorem receive_events (f : Frontend) (reply : Reply) :
    (f.receive reply).events = f.events := by
  cases reply <;> rfl

@[simp] theorem receive_idCounter (f : Frontend) (reply : Reply) :
    (f.receive reply).idCounter = f.idCounter := by
  cases reply <;> rfl

theorem receive_transactions (f : Frontend) (reply : Reply) :
    (f.receive reply).model.transactions = reply.receipts ++ f.model.transactions := by
  cases reply <;> rfl

/-- The first loop of `broadcastAllBids` goes on whether or not the data got through. -/
theorem resume_submittingData (ids : ℕ → IdSource) (f : Frontend) (auctionId : String)
    {valid : List Participant} (hv : valid ≠ []) (p : Participant) (rest : List Participant)
    {reply : Reply} (hreply : (∃ tx, reply = .transaction tx) ∨ reply = .rejected) :
    rest = [] ∧ f.resume ids (.submittingData auctionId valid hv p rest) reply =
        (f.receive reply).announceNext ids auctionId valid valid ∨
      ∃ p' rest' c', rest = p' :: rest' ∧
        f.resume ids (.submittingData auctionId valid hv p rest) reply =
          (f.receive reply, some c') ∧
        (c' = .delaying auctionId valid hv p' rest' ∨
          c' = .submittingData auctionId valid hv p' rest') := by
  rcases hreply with ⟨tx, rfl⟩ | rfl
  · cases rest with
    | nil => exact Or.inl ⟨rfl, rfl⟩
    | cons p' rest => exact Or.inr ⟨p', rest, _, rfl, rfl, Or.inl rfl⟩
  · cases rest with
    | nil => exact Or.inl ⟨rfl, rfl⟩
    | cons p' rest => exact Or.inr ⟨p', rest, _, rfl, rfl, Or.inr rfl⟩

end GridFlex
