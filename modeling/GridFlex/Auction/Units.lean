import GridFlex.Auction.Algorithm

/-! The auction under another unit of power and another currency: every figure it reads and
writes is converted, and nothing is decided differently. -/
namespace GridFlex

/-- What a unit of power and a unit of price are worth in the new units. -/
structure Units where
  power : ℚ
  price : ℚ
  power_pos : 0 < power
  price_pos : 0 < price

namespace Units

variable (u : Units)

def bid (b : Bid) : Bid :=
  { b with powerMW := u.power * b.powerMW, pricePerMW := u.price * b.pricePerMW }

def auction (a : Auction) : Auction :=
  { a with powerMW := u.power * a.powerMW, costPerMW := u.price * a.costPerMW }

def redispatchEvent (e : RedispatchEvent) : RedispatchEvent :=
  { e with powerMW := u.power * e.powerMW, costPerMW := u.price * e.costPerMW }

/-- The cap counts bids, and the competitiveness factor has no unit. -/
def config (c : AuctionConfig) : AuctionConfig :=
  { c with
    minBidPowerMW := u.power * c.minBidPowerMW
    maxBidPowerMW := u.power * c.maxBidPowerMW
    costPerMWThreshold := u.price * c.costPerMWThreshold }

def input (i : AuctionInput) : AuctionInput where
  auction := u.auction i.auction
  redispatchEvent := u.redispatchEvent i.redispatchEvent
  bids := i.bids.map u.bid
  config := u.config i.config

def resolution (r : ParticipantResolution) : ParticipantResolution :=
  { r with
    bidPowerMW := u.power * r.bidPowerMW
    bidPricePerMW := u.price * r.bidPricePerMW
    acceptedPowerMW := u.power * r.acceptedPowerMW
    payoutEUR := u.power * u.price * r.payoutEUR }

/-- Of the two figures of a reason the first counts bids. -/
def reason : Message → Message
  | [accepted, count, totaling, .number total, unit] =>
      [accepted, count, totaling, .number (u.power * total), unit]
  | message => message

def result (r : AuctionResult) : AuctionResult :=
  { r with
    acceptedPowerMW := u.power * r.acceptedPowerMW
    remainingPowerMW := u.power * r.remainingPowerMW
    remainingCostPerMW := u.price * r.remainingCostPerMW
    participantPayoutEUR := u.power * u.price * r.participantPayoutEUR
    reason := u.reason r.reason
    participantResolutions := r.participantResolutions.map u.resolution }

/-- The efficiency is a percentage. -/
def metrics (m : AlgorithmMetrics) : AlgorithmMetrics :=
  { m with
    totalBidPower := u.power * m.totalBidPower
    totalBidValue := u.power * u.price * m.totalBidValue
    averageBidPrice := m.averageBidPrice.map (u.price * ·)
    costSavings := u.power * u.price * m.costSavings }

def output (o : AuctionOutput) : AuctionOutput where
  result := u.result o.result
  selectedBids := o.selectedBids.map u.bid
  rejectedBids := o.rejectedBids.map u.bid
  algorithmMetrics := u.metrics o.algorithmMetrics

end Units

variable (u : Units)

theorem validateInput_units (input : AuctionInput) :
    validateInput (u.input input) = validateInput input := by
  have hpower : u.power * input.redispatchEvent.powerMW ≤ 0 ↔
      input.redispatchEvent.powerMW ≤ 0 := by
    rw [← not_lt, ← not_lt, mul_pos_iff_of_pos_left u.power_pos]
  simp only [validateInput, Units.input, Units.redispatchEvent, List.length_map, hpower]

theorem isValidBid_units (config : AuctionConfig) (bid : Bid) :
    isValidBid (u.config config) (u.bid bid) = isValidBid config bid := by
  have hlimit : (u.config config).priceLimit = u.price * config.priceLimit := mul_assoc _ _ _
  rw [Bool.eq_iff_iff, isValidBid_iff, isValidBid_iff, hlimit]
  simp only [Units.config, Units.bid, mul_le_mul_iff_right₀ u.power_pos,
    mul_le_mul_iff_right₀ u.price_pos]

theorem filterValidBids_units (config : AuctionConfig) (bids : List Bid) :
    filterValidBids (bids.map u.bid) (u.config config) =
      (filterValidBids bids config).map u.bid := by
  unfold filterValidBids
  rw [List.filter_map]
  congr 1
  exact List.filter_congr fun bid _ => isValidBid_units u config bid

theorem bidComparator_units (config : AuctionConfig) (a b : Bid) :
    bidComparator (u.config config) (u.bid a) (u.bid b) ≤ 0 ↔ bidComparator config a b ≤ 0 := by
  have hvalue : 0 < u.price * u.power := mul_pos u.price_pos u.power_pos
  have hscore (x : Bid) : balancedScore (u.config config) (u.bid x) =
      u.price * u.power * balancedScore config x := by
    simp only [balancedScore, Units.config, Units.bid]
    ring
  have hstrategy : (u.config config).selectionStrategy = config.selectionStrategy := rfl
  unfold bidComparator
  rw [hstrategy]
  cases config.selectionStrategy with
  | priceFirst =>
    simp only [Units.bid, sub_nonpos, mul_le_mul_iff_right₀ u.price_pos]
  | powerFirst =>
    simp only [Units.bid, sub_nonpos, mul_le_mul_iff_right₀ u.power_pos]
  | balanced =>
    simp only [hscore, sub_nonpos, mul_le_mul_iff_right₀ hvalue]

theorem sortBids_units (config : AuctionConfig) (bids : List Bid) :
    sortBids (bids.map u.bid) (u.config config) = (sortBids bids config).map u.bid := by
  unfold sortBids arraySort
  symm
  apply List.map_insertionSort
  intro a _ b _
  exact (bidComparator_units u config a b).symm

theorem sumOver_units {f g : Bid → ℚ} {k : ℚ} (h : ∀ bid, f (u.bid bid) = k * g bid)
    (bids : List Bid) : sumOver f (bids.map u.bid) = k * sumOver g bids := by
  rw [sumOver_eq_sum, sumOver_eq_sum, List.map_map, ← List.sum_map_mul_left]
  congr 1
  exact List.map_congr_left fun bid _ => h bid

theorem sumOver_powerMW_units (bids : List Bid) :
    sumOver Bid.powerMW (bids.map u.bid) = u.power * sumOver Bid.powerMW bids :=
  sumOver_units u (fun _ => rfl) bids

theorem bidValue_units (bid : Bid) : bidValue (u.bid bid) = u.power * u.price * bidValue bid := by
  simp only [bidValue, Units.bid]
  ring

theorem sumOver_bidValue_units (bids : List Bid) :
    sumOver bidValue (bids.map u.bid) = u.power * u.price * sumOver bidValue bids :=
  sumOver_units u (bidValue_units u) bids

/-- The locals of the loop in the new units. -/
def Units.selection (s : Selection) : Selection where
  selectedBids := s.selectedBids.map u.bid
  rejectedBids := s.rejectedBids.map u.bid
  remainingPower := u.power * s.remainingPower

theorem selectStep_units (config : AuctionConfig) (s : Selection) (bid : Bid) :
    selectStep (u.config config) (u.selection s) (u.bid bid) =
      u.selection (selectStep config s bid) := by
  have hleft : u.power * s.remainingPower ≤ 0 ↔ s.remainingPower ≤ 0 := by
    rw [← not_lt, ← not_lt, mul_pos_iff_of_pos_left u.power_pos]
  have haccept : (u.selection s).accept (u.bid bid) = u.selection (s.accept bid) := by
    simp only [Selection.accept, Units.selection, Units.bid, List.map_append, List.map_cons,
      List.map_nil, mul_sub]
  have hreject : (u.selection s).reject (u.bid bid) = u.selection (s.reject bid) := by
    simp only [Selection.reject, Units.selection, List.map_append, List.map_cons, List.map_nil]
  unfold selectStep
  rw [haccept, hreject]
  simp only [Units.selection, Units.config, Units.bid, List.length_map, hleft,
    mul_le_mul_iff_right₀ u.power_pos]
  split_ifs <;> first | rfl | exact ite_self _

theorem foldl_selectStep_units (config : AuctionConfig) (s : Selection) (bids : List Bid) :
    (bids.map u.bid).foldl (selectStep (u.config config)) (u.selection s) =
      u.selection (bids.foldl (selectStep config) s) := by
  induction bids generalizing s with
  | nil => rfl
  | cons bid bids ih => rw [List.map_cons, List.foldl_cons, selectStep_units, ih, List.foldl_cons]

theorem selectWinningBids_units (sortedBids : List Bid) (event : RedispatchEvent)
    (config : AuctionConfig) :
    selectWinningBids (sortedBids.map u.bid) (u.redispatchEvent event) (u.config config) =
      u.selection (selectWinningBids sortedBids event config) :=
  foldl_selectStep_units u config ⟨[], [], event.powerMW⟩ sortedBids

theorem resolveParticipant_units (ids : List String) (config : AuctionConfig) (bid : Bid) :
    resolveParticipant ids (u.config config) (u.bid bid) =
      u.resolution (resolveParticipant ids config bid) := by
  have hprice : u.price * bid.pricePerMW >
        u.price * config.costPerMWThreshold * config.priceCompetitivenessFactor ↔
      bid.pricePerMW > config.costPerMWThreshold * config.priceCompetitivenessFactor := by
    rw [mul_assoc, gt_iff_lt, mul_lt_mul_iff_right₀ u.price_pos]
  have hid : (u.bid bid).id = bid.id := rfl
  simp only [resolveParticipant, Units.resolution, bidValue_units, hid]
  simp only [Units.config, Units.bid, hprice, mul_ite, mul_zero]

theorem generateParticipantResolutions_units (bids selected : List Bid)
    (config : AuctionConfig) :
    generateParticipantResolutions (bids.map u.bid) (selected.map u.bid) (u.config config) =
      (generateParticipantResolutions bids selected config).map u.resolution := by
  have hids : (selected.map u.bid).map Bid.id = selected.map Bid.id := by
    rw [List.map_map]
    rfl
  unfold generateParticipantResolutions
  rw [hids, List.map_map, List.map_map]
  exact List.map_congr_left fun bid _ => resolveParticipant_units u _ config bid

theorem calculateAuctionResult_units (auction : Auction) (selected : List Bid)
    (event : RedispatchEvent) (config : AuctionConfig) (bids : List Bid) :
    calculateAuctionResult (u.auction auction) (selected.map u.bid) (u.redispatchEvent event)
        (u.config config) (bids.map u.bid) =
      u.result (calculateAuctionResult auction selected event config bids) := by
  have hfirst : firstBidId (selected.map u.bid) = firstBidId selected := by
    cases selected <;> rfl
  have hremaining (x : ℚ) : max 0 (u.power * event.powerMW - u.power * x) =
      u.power * max 0 (event.powerMW - x) := by
    rw [mul_max_of_nonneg _ _ u.power_pos.le, mul_zero, mul_sub]
  simp only [calculateAuctionResult, Units.result, sumOver_powerMW_units, sumOver_bidValue_units,
    generateParticipantResolutions_units, hfirst, List.length_map]
  simp only [Units.auction, Units.redispatchEvent, Units.config, hremaining]
  split_ifs <;> rfl

theorem calculateMetrics_units (bids selected : List Bid) (event : RedispatchEvent) :
    calculateMetrics (bids.map u.bid) (selected.map u.bid) (u.redispatchEvent event) =
      u.metrics (calculateMetrics bids selected event) := by
  have hvalue : 0 < u.power * u.price := mul_pos u.power_pos u.price_pos
  have hcost : u.power * event.powerMW * (u.price * event.costPerMW) =
      u.power * u.price * (event.powerMW * event.costPerMW) := mul_mul_mul_comm _ _ _ _
  have hnone (power : ℚ) : u.power * power = 0 ↔ power = 0 := by
    rw [mul_eq_zero, or_iff_right u.power_pos.ne']
  have haverage (power value : ℚ) :
      u.power * u.price * value / (u.power * power) = u.price * (value / power) := by
    rw [mul_assoc, mul_div_mul_left _ _ u.power_pos.ne', mul_div_assoc]
  have hefficiency (savings cost : ℚ) :
      u.power * u.price * savings / (u.power * u.price * cost) = savings / cost :=
    mul_div_mul_left _ _ hvalue.ne'
  have hpositive (cost : ℚ) : u.power * u.price * cost > 0 ↔ cost > 0 :=
    mul_pos_iff_of_pos_left hvalue
  simp only [calculateMetrics, Units.metrics, Units.redispatchEvent, sumOver_powerMW_units,
    sumOver_bidValue_units, List.length_map, hcost, ← mul_sub, hnone, haverage, hefficiency,
    hpositive]
  split_ifs <;> simp

end GridFlex
