import GridFlex.Auction.Reconciliation
import GridFlex.Lib.Density

/-! The cost of an award: what the bids are paid and what the power that remains costs at the
threshold. Every bid saves its `balancedScore`, and the strategies are judged by it. -/
namespace GridFlex
open Greedy

/-- The cost of another award of the same demand. -/
def totalCostOf (input : AuctionInput) (bids : List Bid) : ℚ :=
  sumOver bidValue bids +
    (input.redispatchEvent.powerMW - sumOver Bid.powerMW bids) * input.config.costPerMWThreshold

theorem balancedScore_eq (config : AuctionConfig) :
    balancedScore config = fun bid => bid.powerMW * (config.costPerMWThreshold - bid.pricePerMW) :=
  funext fun _ => mul_comm _ _

theorem totalCostOf_eq (input : AuctionInput) (bids : List Bid) :
    totalCostOf input bids = input.redispatchEvent.powerMW * input.config.costPerMWThreshold -
      Knapsack.load (balancedScore input.config) bids := by
  unfold totalCostOf
  rw [sumOver_eq_sum, sumOver_eq_sum, Knapsack.load]
  induction bids with
  | nil => simp
  | cons bid bids ih =>
    simp only [List.map_cons, List.sum_cons, balancedScore, bidValue] at ih ⊢
    linarith

theorem totalCost_eq {input : AuctionInput} {output : AuctionOutput}
    (hout : processAuction input = .ok output) :
    output.result.totalCost = totalCostOf input (awardedBids input) := by
  have hcost : output.result.remainingCostPerMW = input.config.costPerMWThreshold := by
    rw [(processAuction_inv hout).2.2]
    rfl
  unfold AuctionResult.totalCost totalCostOf
  rw [participantPayoutEUR_eq hout, remainingPowerMW_eq hout, hcost, ← sumOver_powerMW_eq_load]

theorem sortBids_cheapest_first {bids : List Bid} {config : AuctionConfig}
    (h : config.selectionStrategy = .priceFirst) :
    (sortBids bids config).Pairwise fun a b =>
      config.costPerMWThreshold - b.pricePerMW ≤ config.costPerMWThreshold - a.pricePerMW := by
  refine (sortBids_isStableSort bids config).sorted.imp ?_
  intro a b hab
  have hprice : a.pricePerMW ≤ b.pricePerMW := by
    simpa only [RanksBefore, rankKey, h] using hab
  exact sub_le_sub_left hprice _

theorem sortBids_best_first {bids : List Bid} {config : AuctionConfig}
    (h : config.selectionStrategy = .balanced) :
    (sortBids bids config).Pairwise fun a b => balancedScore config b ≤ balancedScore config a := by
  refine (sortBids_isStableSort bids config).sorted.imp ?_
  intro a b hab
  simpa only [RanksBefore, rankKey, h, neg_le_neg_iff, balancedScore] using hab

/-- Below the threshold a bid saves something for every unit of power. -/
theorem ranked_saves {input : AuctionInput}
    (hlimit : input.config.priceLimit ≤ input.config.costPerMWThreshold) {bid : Bid}
    (h : bid ∈ sortBids (filterValidBids input.bids input.config) input.config) :
    0 ≤ input.config.costPerMWThreshold - bid.pricePerMW := by
  obtain ⟨-, -, hprice⟩ := isValidBid_iff.mp (mem_sortBids_iff.mp h).2
  exact sub_nonneg.mpr (hprice.trans hlimit)

/-- Under `price_first`, as long as the cap is not reached, no award of the demand costs less by
more than one rejected bid saves. -/
theorem priceFirst_cost_near_optimal (input : AuctionInput)
    (hvalid : validateInput input = .ok ()) (hmin : 0 < input.config.minBidPowerMW)
    (hstrategy : input.config.selectionStrategy = .priceFirst)
    (hlimit : input.config.priceLimit ≤ input.config.costPerMWThreshold) :
    ∃ output, processAuction input = .ok output ∧
      (output.selectedBids.length < input.config.maxAcceptedBids →
        ∀ choice : List Bid, choice.Subperm (filterValidBids input.bids input.config) →
          sumOver Bid.powerMW choice ≤ input.redispatchEvent.powerMW →
          output.result.totalCost ≤ totalCostOf input choice ∨
            ∃ bid ∈ output.rejectedBids, output.result.totalCost ≤
              totalCostOf input choice + balancedScore input.config bid) := by
  obtain ⟨output, hout, hsel, hrej, -⟩ := processAuction_ok hvalid
  refine ⟨output, hout, ?_⟩
  intro hspare choice hchoice hload
  let ranked := sortBids (filterValidBids input.bids input.config) input.config
  have hselected : output.selectedBids = awardedBids input := hsel
  have hrejected := hrej.trans (selectWinningBids_eq ranked input.redispatchEvent input.config).2
  rw [hselected, awardedBids_eq_takes, admits_eq_fits] at hspare
  have hbound := Knapsack.load_le_add_left (room_antitone input.config) hspare
    (sortBids_cheapest_first hstrategy) (fun bid hbid => ranked_power_pos hmin hbid)
    (fun bid hbid => ranked_saves hlimit hbid) (hchoice.trans (sortBids_perm _ _).symm.subperm)
    (by rwa [← sumOver_powerMW_eq_load])
  rw [totalCost_eq hout, totalCostOf_eq, totalCostOf_eq, hrejected, awardedBids_eq_takes,
    admits_eq_fits, balancedScore_eq]
  rcases hbound with hbest | ⟨bid, hbid, hbest⟩
  · left
    linarith
  · right
    exact ⟨bid, hbid, by linarith⟩

/-- Each of the two dearer bids fits the demand only without the cheapest. -/
def pairedInput (strategy : SelectionStrategy) : AuctionInput where
  auction := ⟨"auction", "redispatch-1", 100, 50, .active⟩
  redispatchEvent := ⟨"redispatch-1", 100, 50, .pending⟩
  bids := [sampleBid "1" 50 11, sampleBid "2" 60 10, sampleBid "3" 50 12]
  config := { DEFAULT_AUCTION_CONFIG with selectionStrategy := strategy }

theorem pairedInput_priceFirst :
    ∃ output, processAuction (pairedInput .priceFirst) = .ok output ∧
      (output.selectedBids.length < (pairedInput .priceFirst).config.maxAcceptedBids →
        ∀ choice : List Bid, choice.Subperm
            (filterValidBids (pairedInput .priceFirst).bids (pairedInput .priceFirst).config) →
          sumOver Bid.powerMW choice ≤ (pairedInput .priceFirst).redispatchEvent.powerMW →
          output.result.totalCost ≤ totalCostOf (pairedInput .priceFirst) choice ∨
            ∃ bid ∈ output.rejectedBids, output.result.totalCost ≤
              totalCostOf (pairedInput .priceFirst) choice +
                balancedScore (pairedInput .priceFirst).config bid) :=
  priceFirst_cost_near_optimal (pairedInput .priceFirst) (by decide +kernel) (by decide +kernel)
    rfl (by decide +kernel)

/-- Under `balanced` an award of `k` bids saves at most `k` times as much. -/
theorem balanced_saving_bound (input : AuctionInput) (hvalid : validateInput input = .ok ())
    (hmin : 0 < input.config.minBidPowerMW) (hcap : 0 < input.config.maxAcceptedBids)
    (hstrategy : input.config.selectionStrategy = .balanced)
    (hlimit : input.config.priceLimit ≤ input.config.costPerMWThreshold) :
    ∃ output, processAuction input = .ok output ∧
      ∀ choice : List Bid, choice.Subperm (filterValidBids input.bids input.config) →
        sumOver Bid.powerMW choice ≤ input.redispatchEvent.powerMW →
        totalCostOf input [] - totalCostOf input choice ≤
          choice.length * (totalCostOf input [] - output.result.totalCost) := by
  obtain ⟨output, hout, -⟩ := processAuction_ok hvalid
  refine ⟨output, hout, ?_⟩
  intro choice hchoice hload
  let ranked := sortBids (filterValidBids input.bids input.config) input.config
  have hpos : ∀ bid ∈ ranked, 0 < bid.powerMW := fun bid hbid => ranked_power_pos hmin hbid
  have hsaving : ∀ bid ∈ ranked, 0 ≤ balancedScore input.config bid := fun bid hbid =>
    mul_nonneg (ranked_saves hlimit hbid) (hpos bid hbid).le
  have hchoice' : choice.Subperm ranked := hchoice.trans (sortBids_perm _ _).symm.subperm
  have hfit : ∀ bid ∈ choice, bid.powerMW ≤ input.redispatchEvent.powerMW := by
    intro bid hbid
    rw [sumOver_powerMW_eq_load] at hload
    exact (Knapsack.weight_le_load Bid.powerMW (fun b hb => (hpos b (hchoice'.subset hb)).le)
      hbid).trans hload
  have hroom : ((0 : ℕ) : ℚ) < input.config.maxAcceptedBids := by simpa using hcap
  have hbound : Knapsack.load (balancedScore input.config) choice ≤
      choice.length * Knapsack.load (balancedScore input.config) (awardedBids input) := by
    rw [awardedBids_eq_takes, admits_eq_fits]
    exact Knapsack.load_le_length_mul hroom (validateInput_ok_iff.mp hvalid).2
      (sortBids_best_first hstrategy) hsaving hchoice' hfit
  rw [totalCost_eq hout, totalCostOf_eq, totalCostOf_eq, totalCostOf_eq]
  simpa using hbound

theorem pairedInput_balanced :
    ∃ output, processAuction (pairedInput .balanced) = .ok output ∧
      totalCostOf (pairedInput .balanced) [] -
          totalCostOf (pairedInput .balanced) [sampleBid "1" 50 11, sampleBid "3" 50 12] ≤
        2 * (totalCostOf (pairedInput .balanced) [] - output.result.totalCost) := by
  obtain ⟨output, hout, hbound⟩ := balanced_saving_bound (pairedInput .balanced)
    (by decide +kernel) (by decide +kernel) (by decide +kernel) rfl (by decide +kernel)
  exact ⟨output, hout, hbound [sampleBid "1" 50 11, sampleBid "3" 50 12]
    (by decide +kernel) (by decide +kernel)⟩

end GridFlex
