import GridFlex.Auction.Savings

/-! The figures of an outcome that are not the loop's own: the remaining power, which
`calculateAuctionResult` computes a second time, and the average price, whose divisor nothing
tests. -/
namespace GridFlex

/-- The totals of the result and the remainder of the loop account for the demand. -/
structure PowerBalance (input : AuctionInput) (result : AuctionResult) : Prop where
  balance : result.acceptedPowerMW + result.remainingPowerMW = input.redispatchEvent.powerMW
  nonneg : 0 ≤ result.remainingPowerMW
  /-- `Math.max` has nothing to clamp. -/
  unclamped : 0 ≤ input.redispatchEvent.powerMW - result.acceptedPowerMW
  tracked : (selectWinningBids (sortBids (filterValidBids input.bids input.config) input.config)
    input.redispatchEvent input.config).remainingPower = result.remainingPowerMW

/-- Whatever the limits of the configuration and the signs of the bids, the accepted and the
remaining power add up to the demand. -/
theorem power_balance (input : AuctionInput) (hvalid : validateInput input = .ok ()) :
    ∃ output, processAuction input = .ok output ∧ PowerBalance input output.result := by
  obtain ⟨output, hout, hsel, -, hresult⟩ := processAuction_ok hvalid
  have hselected : output.selectedBids = awardedBids input := hsel
  have hle := awardedBids_power_le (validateInput_ok_iff.mp hvalid).2
  have hnonneg : 0 ≤ input.redispatchEvent.powerMW - sumOver Bid.powerMW (awardedBids input) :=
    sub_nonneg.mpr hle
  have hbalanced := selectWinningBids_balanced
    (sortBids (filterValidBids input.bids input.config) input.config)
    input.redispatchEvent input.config
  refine ⟨output, hout, ?_⟩
  simp only [hresult, hselected, calculateAuctionResult]
  constructor <;> simp only [max_eq_right hnonneg]
  case balance => exact add_sub_cancel _ _
  case nonneg => exact hnonneg
  case unclamped => exact hnonneg
  case tracked => exact hbalanced

/-- A bid that gives power back is within the limits, and is accepted. -/
def negativeBidInput : AuctionInput :=
  { skippingInput with
    bids := [sampleBid "1" (-20) 10, sampleBid "2" 110 20]
    config := { DEFAULT_AUCTION_CONFIG with minBidPowerMW := -50, maxAcceptedBids := 5 / 2 } }

theorem negativeBidInput_balance :
    ∃ output, processAuction negativeBidInput = .ok output ∧
      PowerBalance negativeBidInput output.result :=
  power_balance negativeBidInput (by decide +kernel)

/-- No less than the lowest price and no more than the highest. -/
structure AveragesPrices (bids : List Bid) (average : ℚ) : Prop where
  lowest : ∃ cheapest ∈ bids, (∀ bid ∈ bids, cheapest.pricePerMW ≤ bid.pricePerMW) ∧
    cheapest.pricePerMW ≤ average
  highest : ∃ dearest ∈ bids, (∀ bid ∈ bids, bid.pricePerMW ≤ dearest.pricePerMW) ∧
    average ≤ dearest.pricePerMW

/-- The guard of `averageBidPrice` tests the number of bids; with positive powers that is enough. -/
theorem averageBidPrice_eq {bids : List Bid} (selectedBids : List Bid) (event : RedispatchEvent)
    (hne : bids ≠ []) (hpos : ∀ bid ∈ bids, 0 < bid.powerMW) :
    0 < (calculateMetrics bids selectedBids event).totalBidPower ∧
      (calculateMetrics bids selectedBids event).averageBidPrice =
        some (WeightedMean.mean Bid.powerMW Bid.pricePerMW bids) := by
  have htotal : 0 < sumOver Bid.powerMW bids := by
    rw [sumOver_eq_sum]
    exact WeightedMean.total_pos hne hpos
  refine ⟨htotal, ?_⟩
  have hlength : bids.length > 0 := List.length_pos_iff.mpr hne
  simp only [calculateMetrics, hlength, ↓reduceIte, htotal.ne']
  rw [sumOver_eq_sum, sumOver_eq_sum]
  rfl

/-- With a positive lower limit on the powers, the average price is one whenever there is a valid
bid, and keeps to the price limit. -/
theorem average_price_well_defined (input : AuctionInput) (hvalid : validateInput input = .ok ())
    (hmin : 0 < input.config.minBidPowerMW) :
    let valid := filterValidBids input.bids input.config
    ∃ output, processAuction input = .ok output ∧
      (valid ≠ [] → 0 < output.algorithmMetrics.totalBidPower ∧
        ∃ average, output.algorithmMetrics.averageBidPrice = some average ∧
          AveragesPrices valid average ∧
          average ≤ input.config.costPerMWThreshold * input.config.priceCompetitivenessFactor) ∧
      (valid = [] → output.algorithmMetrics.averageBidPrice = some 0) := by
  intro valid
  obtain ⟨output, hout, -⟩ := processAuction_ok hvalid
  have hmetrics := processAuction_metrics hout
  refine ⟨output, hout, ?_, ?_⟩
  · intro hne
    have hlimits : ∀ bid ∈ valid, 0 < bid.powerMW ∧ bid.pricePerMW ≤ input.config.priceLimit := by
      intro bid hbid
      obtain ⟨hpower, -, hprice⟩ := isValidBid_iff.mp (List.mem_filter.mp hbid).2
      exact ⟨hmin.trans_le hpower, hprice⟩
    have hpos : ∀ bid ∈ valid, 0 < bid.powerMW := fun bid hbid => (hlimits bid hbid).1
    obtain ⟨htotal, haverage⟩ :=
      averageBidPrice_eq output.selectedBids input.redispatchEvent hne hpos
    obtain ⟨hlowest, hhighest⟩ := WeightedMean.mean_between Bid.pricePerMW hne hpos
    rw [hmetrics]
    refine ⟨htotal, _, haverage, ⟨hlowest, hhighest⟩, ?_⟩
    exact WeightedMean.mean_le hne hpos fun bid hbid => (hlimits bid hbid).2
  · intro hnone
    have hlength : ¬(filterValidBids input.bids input.config).length > 0 := by
      rw [show filterValidBids input.bids input.config = [] from hnone]
      decide
    rw [hmetrics]
    simp only [calculateMetrics, hlength, ↓reduceIte]

theorem skippingInput_average :
    let valid := filterValidBids skippingInput.bids skippingInput.config
    ∃ output, processAuction skippingInput = .ok output ∧
      (valid ≠ [] → 0 < output.algorithmMetrics.totalBidPower ∧
        ∃ average, output.algorithmMetrics.averageBidPrice = some average ∧
          AveragesPrices valid average ∧
          average ≤ skippingInput.config.costPerMWThreshold *
            skippingInput.config.priceCompetitivenessFactor) ∧
      (valid = [] → output.algorithmMetrics.averageBidPrice = some 0) :=
  average_price_well_defined skippingInput (by decide +kernel) (by decide +kernel)

end GridFlex
