import GridFlex.Lib.Checked
import GridFlex.Types

/-! Embedding of `algorithms/auction-algorithm.ts`. -/
namespace GridFlex

inductive SelectionStrategy where
  | priceFirst | powerFirst | balanced
  deriving DecidableEq, Repr

structure AuctionConfig where
  maxAcceptedBids : ℚ
  minBidPowerMW : ℚ
  maxBidPowerMW : ℚ
  costPerMWThreshold : ℚ
  priceCompetitivenessFactor : ℚ
  selectionStrategy : SelectionStrategy
  allowPartialBids : Bool
  deriving DecidableEq, Repr

structure AuctionInput where
  auction : Auction
  redispatchEvent : RedispatchEvent
  bids : List Bid
  config : AuctionConfig
  deriving DecidableEq, Repr

/-- `averageBidPrice` is `none` where the source divides by zero. -/
structure AlgorithmMetrics where
  totalBidPower : ℚ
  totalBidValue : ℚ
  averageBidPrice : Option ℚ
  costSavings : ℚ
  efficiency : ℚ
  deriving DecidableEq, Repr

structure AuctionOutput where
  result : AuctionResult
  selectedBids : List Bid
  rejectedBids : List Bid
  algorithmMetrics : AlgorithmMetrics
  deriving DecidableEq, Repr

def DEFAULT_AUCTION_CONFIG : AuctionConfig where
  maxAcceptedBids := 10
  minBidPowerMW := 1
  maxBidPowerMW := 1000
  costPerMWThreshold := 50
  priceCompetitivenessFactor := 4 / 5
  selectionStrategy := .priceFirst
  allowPartialBids := false

/-- The first test of the source (a missing auction, event or bid list) cannot fail on
a value of the input type. -/
def validateInput (input : AuctionInput) : Except String Unit :=
  if input.bids.length = 0 then .error "No bids provided for auction"
  else if input.redispatchEvent.powerMW ≤ 0 then
    .error "Invalid redispatch event: power must be positive"
  else .ok ()

theorem validateInput_ok_iff {input : AuctionInput} :
    validateInput input = .ok () ↔ input.bids ≠ [] ∧ 0 < input.redispatchEvent.powerMW := by
  unfold validateInput
  split_ifs with hb hp
  · simp [List.length_eq_zero_iff.mp hb]
  · simp [not_lt.mpr hp]
  · exact iff_of_true rfl ⟨fun h => hb (by simp [h]), not_le.mp hp⟩

def isValidBid (config : AuctionConfig) (bid : Bid) : Bool :=
  if bid.powerMW < config.minBidPowerMW ∨ bid.powerMW > config.maxBidPowerMW then false
  else decide (bid.pricePerMW ≤ config.costPerMWThreshold * config.priceCompetitivenessFactor)

def filterValidBids (bids : List Bid) (config : AuctionConfig) : List Bid :=
  bids.filter (isValidBid config)

/-- The highest price that `filterValidBids` lets pass. -/
def AuctionConfig.priceLimit (config : AuctionConfig) : ℚ :=
  config.costPerMWThreshold * config.priceCompetitivenessFactor

theorem isValidBid_iff {config : AuctionConfig} {bid : Bid} :
    isValidBid config bid = true ↔ config.minBidPowerMW ≤ bid.powerMW ∧
      bid.powerMW ≤ config.maxBidPowerMW ∧ bid.pricePerMW ≤ config.priceLimit := by
  unfold isValidBid AuctionConfig.priceLimit
  split_ifs with h
  · simp only [false_iff]
    rintro ⟨hmin, hmax, -⟩
    rcases h with h | h
    · exact not_lt.mpr hmin h
    · exact not_lt.mpr hmax h
  · simp only [not_or, not_lt] at h
    simp [h]

/-- `Array.prototype.sort`: stable, and `a` may precede `b` when the comparator is not positive. -/
def arraySort {α : Type*} (comparator : α → α → ℚ) (xs : List α) : List α :=
  xs.insertionSort (fun a b => comparator a b ≤ 0)

def balancedScore (config : AuctionConfig) (bid : Bid) : ℚ :=
  (config.costPerMWThreshold - bid.pricePerMW) * bid.powerMW

def bidComparator (config : AuctionConfig) (a b : Bid) : ℚ :=
  match config.selectionStrategy with
  | .priceFirst => a.pricePerMW - b.pricePerMW
  | .powerFirst => b.powerMW - a.powerMW
  | .balanced => balancedScore config b - balancedScore config a

def sortBids (bids : List Bid) (config : AuctionConfig) : List Bid :=
  arraySort (bidComparator config) bids

/-- The three locals of `selectWinningBids`. -/
structure Selection where
  selectedBids : List Bid
  rejectedBids : List Bid
  remainingPower : ℚ
  deriving DecidableEq, Repr

def Selection.accept (s : Selection) (bid : Bid) : Selection where
  selectedBids := s.selectedBids ++ [bid]
  rejectedBids := s.rejectedBids
  remainingPower := s.remainingPower - bid.powerMW

def Selection.reject (s : Selection) (bid : Bid) : Selection :=
  { s with rejectedBids := s.rejectedBids ++ [bid] }

/-- One iteration of the loop. Partial acceptance is not implemented: both last branches reject. -/
def selectStep (config : AuctionConfig) (s : Selection) (bid : Bid) : Selection :=
  if config.maxAcceptedBids ≤ s.selectedBids.length then s.reject bid
  else if s.remainingPower ≤ 0 then s.reject bid
  else if bid.powerMW ≤ s.remainingPower then s.accept bid
  else if config.allowPartialBids then s.reject bid
  else s.reject bid

def selectWinningBids (sortedBids : List Bid) (redispatchEvent : RedispatchEvent)
    (config : AuctionConfig) : Selection :=
  sortedBids.foldl (selectStep config) ⟨[], [], redispatchEvent.powerMW⟩

/-- `bids.reduce((sum, bid) => sum + f(bid), 0)`. -/
def sumOver (f : Bid → ℚ) (bids : List Bid) : ℚ := bids.foldl (fun sum bid => sum + f bid) 0

theorem sumOver_eq_sum (f : Bid → ℚ) (bids : List Bid) : sumOver f bids = (bids.map f).sum := by
  rw [sumOver, List.sum_eq_foldl, List.foldl_map]

def bidValue (bid : Bid) : ℚ := bid.powerMW * bid.pricePerMW

/-- `` `Participant ${id.split('-')[1]}` ``; a missing part prints as `undefined`. -/
def participantName (participantId : String) : String :=
  "Participant " ++ match (participantId.toList.splitOn '-')[1]? with
    | some part => String.ofList part
    | none => "undefined"

def resolveParticipant (selectedBidIds : List String) (config : AuctionConfig) (bid : Bid) :
    ParticipantResolution :=
  let isAccepted : Bool := decide (bid.id ∈ selectedBidIds)
  { participantId := bid.participantId
    participantName := participantName bid.participantId
    bidPowerMW := bid.powerMW
    bidPricePerMW := bid.pricePerMW
    status := if isAccepted then .accepted else .rejected
    acceptedPowerMW := if isAccepted then bid.powerMW else 0
    payoutEUR := if isAccepted then bidValue bid else 0
    reason :=
      if isAccepted then "Bid accepted - competitive price"
      else if bid.pricePerMW > config.costPerMWThreshold * config.priceCompetitivenessFactor then
        "Bid rejected - price too high"
      else "Bid rejected - insufficient capacity" }

def generateParticipantResolutions (allBids selectedBids : List Bid) (config : AuctionConfig) :
    List ParticipantResolution :=
  allBids.map (resolveParticipant (selectedBids.map Bid.id) config)

/-- `selectedBids[0]?.id || 'none'`: an empty id is falsy too. -/
def firstBidId (selectedBids : List Bid) : String :=
  match selectedBids.head? with
  | some bid => if bid.id = "" then "none" else bid.id
  | none => "none"

def calculateAuctionResult (auction : Auction) (selectedBids : List Bid)
    (redispatchEvent : RedispatchEvent) (config : AuctionConfig) (allBids : List Bid) :
    AuctionResult :=
  let totalAcceptedPower := sumOver Bid.powerMW selectedBids
  { auctionId := auction.id
    bidId := firstBidId selectedBids
    acceptedPowerMW := totalAcceptedPower
    remainingPowerMW := max 0 (redispatchEvent.powerMW - totalAcceptedPower)
    remainingCostPerMW := config.costPerMWThreshold
    participantPayoutEUR := sumOver bidValue selectedBids
    bidStatus := if selectedBids.length > 0 then .accepted else .rejected
    reason :=
      if selectedBids.length > 0 then
        [.text "Accepted ", .number selectedBids.length, .text " bids totaling ",
          .number totalAcceptedPower, .text " MW"]
      else [.text "No competitive bids received"]
    participantResolutions := generateParticipantResolutions allBids selectedBids config }

def calculateMetrics (allBids selectedBids : List Bid) (redispatchEvent : RedispatchEvent) :
    AlgorithmMetrics :=
  let totalBidPower := sumOver Bid.powerMW allBids
  let totalBidValue := sumOver bidValue allBids
  let redispatchCost := redispatchEvent.powerMW * redispatchEvent.costPerMW
  let costSavings := redispatchCost - sumOver bidValue selectedBids
  { totalBidPower := totalBidPower
    totalBidValue := totalBidValue
    averageBidPrice :=
      if allBids.length > 0 then
        if totalBidPower = 0 then none else some (totalBidValue / totalBidPower)
      else some 0
    costSavings := costSavings
    efficiency := if redispatchCost > 0 then costSavings / redispatchCost * 100 else 0 }

def processAuction (input : AuctionInput) : Except String AuctionOutput := do
  validateInput input
  let validBids := filterValidBids input.bids input.config
  let sortedBids := sortBids validBids input.config
  let selection := selectWinningBids sortedBids input.redispatchEvent input.config
  return {
    result := calculateAuctionResult input.auction selection.selectedBids
      input.redispatchEvent input.config input.bids
    selectedBids := selection.selectedBids
    rejectedBids := selection.rejectedBids
    algorithmMetrics := calculateMetrics validBids selection.selectedBids input.redispatchEvent }

theorem processAuction_ok {input : AuctionInput} (h : validateInput input = .ok ()) :
    ∃ output, processAuction input = .ok output ∧
      output.selectedBids = (selectWinningBids
        (sortBids (filterValidBids input.bids input.config) input.config)
        input.redispatchEvent input.config).selectedBids ∧
      output.rejectedBids = (selectWinningBids
        (sortBids (filterValidBids input.bids input.config) input.config)
        input.redispatchEvent input.config).rejectedBids ∧
      output.result = calculateAuctionResult input.auction output.selectedBids
        input.redispatchEvent input.config input.bids := by
  simp only [processAuction, h]
  exact ⟨_, rfl, rfl, rfl, rfl⟩

theorem processAuction_inv {input : AuctionInput} {output : AuctionOutput}
    (h : processAuction input = .ok output) :
    validateInput input = .ok () ∧
      output.selectedBids = (selectWinningBids
        (sortBids (filterValidBids input.bids input.config) input.config)
        input.redispatchEvent input.config).selectedBids ∧
      output.result = calculateAuctionResult input.auction output.selectedBids
        input.redispatchEvent input.config input.bids := by
  obtain ⟨_, hvalid, -⟩ := Checked.bind_ok.mp h
  obtain ⟨output', hout, hsel, -, hresult⟩ := processAuction_ok hvalid
  cases hout.symm.trans h
  exact ⟨hvalid, hsel, hresult⟩

theorem processAuction_metrics {input : AuctionInput} {output : AuctionOutput}
    (h : processAuction input = .ok output) :
    output.algorithmMetrics = calculateMetrics (filterValidBids input.bids input.config)
      output.selectedBids input.redispatchEvent := by
  obtain ⟨_, -, hrest⟩ := Checked.bind_ok.mp h
  cases hrest
  rfl

/-- The cases of `createOptimized`. -/
inductive UseCase where
  | costSavings | powerMaximization | balanced
  deriving DecidableEq, Repr

/-- The configuration that `AuctionAlgorithmFactory.createOptimized` hands to the algorithm. -/
def createOptimized : UseCase → AuctionConfig
  | .costSavings =>
      { DEFAULT_AUCTION_CONFIG with
        selectionStrategy := .priceFirst
        priceCompetitivenessFactor := 7 / 10 }
  | .powerMaximization =>
      { DEFAULT_AUCTION_CONFIG with selectionStrategy := .powerFirst, maxAcceptedBids := 20 }
  | .balanced => { DEFAULT_AUCTION_CONFIG with selectionStrategy := .balanced }

end GridFlex
