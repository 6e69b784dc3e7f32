import GridFlex.Auction.Packing

/-! The savings that `calculateMetrics` reports against the settlement that
`calculateAuctionResult` reports. The power that the auction leaves unserved is still paid for at
the redispatch cost, and the metric counts that cost as saved. -/
namespace GridFlex
open Greedy

/-- What the operator pays once the auction is over: the winners, and the redispatch of the power
that they do not serve. -/
def AuctionResult.totalCost (result : AuctionResult) : ℚ :=
  result.participantPayoutEUR + result.remainingPowerMW * result.remainingCostPerMW

/-- The metrics report what the settlement saves, as an amount and as a percentage. -/
structure SavingsReconcile (event : RedispatchEvent) (output : AuctionOutput) : Prop where
  costSavings : output.algorithmMetrics.costSavings =
    event.powerMW * event.costPerMW - output.result.totalCost
  efficiency : 0 < event.powerMW * event.costPerMW → output.algorithmMetrics.efficiency =
    (event.powerMW * event.costPerMW - output.result.totalCost) /
      (event.powerMW * event.costPerMW) * 100

/-- Bids at some places of the ranking add up to the demand, a bid being among them exactly when
there is room and power left for it behind those ranked before it. -/
def CoversExactly (input : AuctionInput) : Prop :=
  let ranked := sortBids (filterValidBids input.bids input.config) input.config
  ∃ chosen : List Bool, chosen.length = ranked.length ∧
    (∀ before bid after, ranked = before ++ bid :: after → chosen[before.length]? =
      some (admits input.redispatchEvent.powerMW input.config (pick chosen before) bid)) ∧
    sumOver Bid.powerMW (pick chosen ranked) = input.redispatchEvent.powerMW

theorem coversExactly_iff (input : AuctionInput) :
    CoversExactly input ↔
      sumOver Bid.powerMW (awardedBids input) = input.redispatchEvent.powerMW := by
  rw [awardedBids_eq_takes]
  constructor
  · rintro ⟨chosen, hlength, hchosen, hsum⟩
    have hflags : chosen = flags (admits input.redispatchEvent.powerMW input.config) []
        (sortBids (filterValidBids input.bids input.config) input.config) :=
      (eq_flags_iff hlength).mpr hchosen
    rw [hflags] at hsum
    exact hsum
  · intro hsum
    exact ⟨_, flags_length _ _ _, (eq_flags_iff (flags_length _ _ _)).mp rfl, hsum⟩

/-- The metric is above the amount saved by the cost of the power left unserved. -/
theorem costSavings_eq {input : AuctionInput} {output : AuctionOutput}
    (hthreshold : input.config.costPerMWThreshold = input.redispatchEvent.costPerMW)
    (hout : processAuction input = .ok output) :
    output.algorithmMetrics.costSavings =
      input.redispatchEvent.powerMW * input.redispatchEvent.costPerMW - output.result.totalCost +
        (input.redispatchEvent.powerMW - sumOver Bid.powerMW (awardedBids input)) *
          input.redispatchEvent.costPerMW := by
  obtain ⟨hvalid, hsel, hresult⟩ := processAuction_inv hout
  have hselected : output.selectedBids = awardedBids input := hsel
  have hle := awardedBids_power_le (validateInput_ok_iff.mp hvalid).2
  have hremaining : max 0 (input.redispatchEvent.powerMW -
      sumOver Bid.powerMW (awardedBids input)) =
      input.redispatchEvent.powerMW - sumOver Bid.powerMW (awardedBids input) :=
    max_eq_right (sub_nonneg.mpr hle)
  rw [processAuction_metrics hout]
  simp only [calculateMetrics, AuctionResult.totalCost, hresult, calculateAuctionResult,
    hselected, hremaining, hthreshold]
  ring

/-- The percentage is that of the amount. -/
theorem efficiency_eq {input : AuctionInput} {output : AuctionOutput}
    (hout : processAuction input = .ok output)
    (hcost : 0 < input.redispatchEvent.powerMW * input.redispatchEvent.costPerMW) :
    output.algorithmMetrics.efficiency = output.algorithmMetrics.costSavings /
      (input.redispatchEvent.powerMW * input.redispatchEvent.costPerMW) * 100 := by
  rw [processAuction_metrics hout]
  simp only [calculateMetrics, gt_iff_lt, hcost, ↓reduceIte]

/-- The reported savings are those of the settlement exactly when nothing is left to pay for. -/
theorem savings_reconcile_iff (input : AuctionInput) (hvalid : validateInput input = .ok ())
    (hthreshold : input.config.costPerMWThreshold = input.redispatchEvent.costPerMW) :
    ∃ output, processAuction input = .ok output ∧
      (SavingsReconcile input.redispatchEvent output ↔
        input.redispatchEvent.costPerMW = 0 ∨ CoversExactly input) := by
  obtain ⟨output, hout, -⟩ := processAuction_ok hvalid
  have hsavings := costSavings_eq hthreshold hout
  have hzero : (input.redispatchEvent.powerMW - sumOver Bid.powerMW (awardedBids input)) *
      input.redispatchEvent.costPerMW = 0 ↔
        input.redispatchEvent.costPerMW = 0 ∨ CoversExactly input := by
    rw [mul_eq_zero, sub_eq_zero, coversExactly_iff, eq_comm, or_comm]
  refine ⟨output, hout, ?_⟩
  rw [← hzero]
  constructor
  · intro h
    have hamount := h.costSavings
    linarith
  · intro h
    rw [h, add_zero] at hsavings
    refine ⟨hsavings, ?_⟩
    intro hcost
    rw [efficiency_eq hout hcost, hsavings]

theorem skippingInput_reconciles :
    ∃ output, processAuction skippingInput = .ok output ∧
      (SavingsReconcile skippingInput.redispatchEvent output ↔
        skippingInput.redispatchEvent.costPerMW = 0 ∨ CoversExactly skippingInput) :=
  savings_reconcile_iff skippingInput (by decide +kernel) (by decide +kernel)

/-- One bid serves 40 of the 100 MW. -/
def partlyServedInput : AuctionInput :=
  { skippingInput with bids := [sampleBid "1" 40 30] }

/-- The redispatch of the other 60 MW costs 3000, which the metric reports as saved. -/
theorem partlyServedInput_overstated :
    validateInput partlyServedInput = .ok () ∧
      partlyServedInput.config.costPerMWThreshold = partlyServedInput.redispatchEvent.costPerMW ∧
      ∃ output, processAuction partlyServedInput = .ok output ∧
        ¬SavingsReconcile partlyServedInput.redispatchEvent output := by
  refine ⟨by decide +kernel, by decide +kernel, _, rfl, ?_⟩
  intro h
  exact absurd h.costSavings (by decide +kernel)

end GridFlex
