import GridFlex.Auction.Savings

/-! The award as a packing of the demand: more demand is not served less, and under
`power_first` at least half of what could be served is. -/
namespace GridFlex
open Greedy

theorem room_antitone (config : AuctionConfig) (m n : ℕ) (hmn : m ≤ n)
    (h : (n : ℚ) < config.maxAcceptedBids) : (m : ℚ) < config.maxAcceptedBids :=
  lt_of_le_of_lt (Nat.cast_le.mpr hmn) h

theorem acceptedPowerMW_eq {input : AuctionInput} {output : AuctionOutput}
    (hout : processAuction input = .ok output) :
    output.result.acceptedPowerMW = Knapsack.load Bid.powerMW (awardedBids input) := by
  obtain ⟨-, hsel, hresult⟩ := processAuction_inv hout
  rw [hresult, ← sumOver_powerMW_eq_load]
  exact congrArg (sumOver Bid.powerMW) hsel

theorem remainingPowerMW_eq {input : AuctionInput} {output : AuctionOutput}
    (hout : processAuction input = .ok output) :
    output.result.remainingPowerMW =
      input.redispatchEvent.powerMW - Knapsack.load Bid.powerMW (awardedBids input) := by
  obtain ⟨hvalid, hsel, hresult⟩ := processAuction_inv hout
  have hselected : output.selectedBids = awardedBids input := hsel
  have hle := awardedBids_power_le (validateInput_ok_iff.mp hvalid).2
  rw [← sumOver_powerMW_eq_load]
  simp only [hresult, hselected, calculateAuctionResult]
  exact max_eq_right (sub_nonneg.mpr hle)

theorem participantPayoutEUR_eq {input : AuctionInput} {output : AuctionOutput}
    (hout : processAuction input = .ok output) :
    output.result.participantPayoutEUR = sumOver bidValue (awardedBids input) := by
  obtain ⟨-, hsel, hresult⟩ := processAuction_inv hout
  rw [hresult]
  exact congrArg (sumOver bidValue) hsel

/-- The input for an event that asks for another power. -/
def AuctionInput.withDemand (input : AuctionInput) (powerMW : ℚ) : AuctionInput :=
  { input with redispatchEvent := { input.redispatchEvent with powerMW := powerMW } }

theorem awardedPower_mono {input : AuctionInput} (hmin : 0 < input.config.minBidPowerMW)
    {powerMW powerMW' : ℚ} (hpower : 0 < powerMW) (hle : powerMW ≤ powerMW') :
    Knapsack.load Bid.powerMW (awardedBids (input.withDemand powerMW)) ≤
      Knapsack.load Bid.powerMW (awardedBids (input.withDemand powerMW')) := by
  rw [awardedBids_eq_takes, awardedBids_eq_takes, admits_eq_fits, admits_eq_fits]
  apply Knapsack.load_takes_mono hpower.le hle
  intro bid hbid
  exact ranked_power_pos hmin hbid

/-- An event that asks for more power is given no less. -/
theorem demand_monotone (input : AuctionInput) {powerMW powerMW' : ℚ}
    (hmin : 0 < input.config.minBidPowerMW) (hpower : 0 < powerMW) (hle : powerMW ≤ powerMW')
    {output : AuctionOutput} (hout : processAuction (input.withDemand powerMW) = .ok output) :
    ∃ output', processAuction (input.withDemand powerMW') = .ok output' ∧
      output.result.acceptedPowerMW ≤ output'.result.acceptedPowerMW := by
  have hbids : input.bids ≠ [] := (validateInput_ok_iff.mp (processAuction_inv hout).1).1
  have hvalid : validateInput (input.withDemand powerMW') = .ok () :=
    validateInput_ok_iff.mpr ⟨hbids, hpower.trans_le hle⟩
  obtain ⟨output', hout', -⟩ := processAuction_ok hvalid
  refine ⟨output', hout', ?_⟩
  rw [acceptedPowerMW_eq hout, acceptedPowerMW_eq hout']
  exact awardedPower_mono hmin hpower hle

/-- The bid of 60 that the larger demand takes keeps out the bid of 40 that the smaller one
takes. -/
theorem skippingInput_demand :
    ∃ output output', processAuction (skippingInput.withDemand 50) = .ok output ∧
      processAuction (skippingInput.withDemand 60) = .ok output' ∧
      output.result.acceptedPowerMW ≤ output'.result.acceptedPowerMW := by
  have hvalid : validateInput (skippingInput.withDemand 50) = .ok () := by decide +kernel
  obtain ⟨output, hout, -⟩ := processAuction_ok hvalid
  obtain ⟨output', hout', hle⟩ := @demand_monotone skippingInput 50 60
    (by decide +kernel) (by decide +kernel) (by decide +kernel) output hout
  exact ⟨output, output', hout, hout', hle⟩

theorem sortBids_heaviest_first {bids : List Bid} {config : AuctionConfig}
    (h : config.selectionStrategy = .powerFirst) :
    (sortBids bids config).Pairwise fun a b => b.powerMW ≤ a.powerMW := by
  refine (sortBids_isStableSort bids config).sorted.imp ?_
  intro a b hab
  simpa [RanksBefore, rankKey, h] using hab

theorem awardedPower_half {input : AuctionInput} {cap : ℕ}
    (hvalid : validateInput input = .ok ()) (hmin : 0 < input.config.minBidPowerMW)
    (hcap : input.config.maxAcceptedBids = cap)
    (hstrategy : input.config.selectionStrategy = .powerFirst) {choice : List Bid}
    (hchoice : choice.Subperm (filterValidBids input.bids input.config))
    (hfeasible : Feasible input.redispatchEvent.powerMW cap choice) :
    Knapsack.load Bid.powerMW choice ≤ 2 * Knapsack.load Bid.powerMW (awardedBids input) := by
  rw [awardedBids_eq_takes, admits_eq_fits_cap hcap]
  apply Knapsack.load_le_two_mul (validateInput_ok_iff.mp hvalid).2
    (sortBids_heaviest_first hstrategy)
  · intro bid hbid
    exact (ranked_power_pos hmin hbid).le
  · exact hchoice.trans (sortBids_perm _ _).symm.subperm
  · rw [← sumOver_powerMW_eq_load]
    exact hfeasible.1
  · exact hfeasible.2

/-- Under `power_first` twice the accepted power bounds what any award could accept. -/
theorem powerFirst_half_optimal (input : AuctionInput) (cap : ℕ)
    (hvalid : validateInput input = .ok ()) (hmin : 0 < input.config.minBidPowerMW)
    (hcap : input.config.maxAcceptedBids = cap)
    (hstrategy : input.config.selectionStrategy = .powerFirst) :
    ∃ output, processAuction input = .ok output ∧
      ∀ choice : List Bid, choice.Subperm (filterValidBids input.bids input.config) →
        Feasible input.redispatchEvent.powerMW cap choice →
          sumOver Bid.powerMW choice ≤ 2 * output.result.acceptedPowerMW := by
  obtain ⟨output, hout, -⟩ := processAuction_ok hvalid
  refine ⟨output, hout, ?_⟩
  intro choice hchoice hfeasible
  rw [acceptedPowerMW_eq hout, sumOver_powerMW_eq_load]
  exact awardedPower_half hvalid hmin hcap hstrategy hchoice hfeasible

/-- Two bids of 50 would serve the demand; the bid of 60 leaves no room for either. -/
def halfServedInput : AuctionInput where
  auction := ⟨"auction", "redispatch-1", 100, 50, .active⟩
  redispatchEvent := ⟨"redispatch-1", 100, 50, .pending⟩
  bids := [sampleBid "1" 50 30, sampleBid "2" 60 20, sampleBid "3" 50 10]
  config := createOptimized .powerMaximization

theorem halfServedInput_half :
    ∃ output, processAuction halfServedInput = .ok output ∧
      ∀ choice : List Bid,
        choice.Subperm (filterValidBids halfServedInput.bids halfServedInput.config) →
        Feasible halfServedInput.redispatchEvent.powerMW 20 choice →
          sumOver Bid.powerMW choice ≤ 2 * output.result.acceptedPowerMW :=
  powerFirst_half_optimal halfServedInput 20 (by decide +kernel) (by decide +kernel)
    (by decide +kernel) rfl

end GridFlex
