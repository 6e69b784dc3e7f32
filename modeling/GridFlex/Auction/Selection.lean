import GridFlex.Auction.Algorithm
import GridFlex.Lib.Knapsack
import GridFlex.Lib.StableSort

/-! The award of `processAuction`: a stable ranking of the valid bids followed by the
greedy pass over it, whose outcome is the best feasible set along the ranking. -/
namespace GridFlex
open Greedy StableSort

/-- The ranking key of a strategy, smallest first: price, negated power or negated score. -/
def rankKey (config : AuctionConfig) (bid : Bid) : ℚ :=
  match config.selectionStrategy with
  | .priceFirst => bid.pricePerMW
  | .powerFirst => -bid.powerMW
  | .balanced => -((config.costPerMWThreshold - bid.pricePerMW) * bid.powerMW)

def RanksBefore (config : AuctionConfig) (a b : Bid) : Prop := rankKey config a ≤ rankKey config b

instance (config : AuctionConfig) : DecidableRel (RanksBefore config) :=
  fun a b => inferInstanceAs (Decidable (rankKey config a ≤ rankKey config b))

instance (config : AuctionConfig) : Std.Total (RanksBefore config) :=
  ⟨fun a b => le_total (rankKey config a) (rankKey config b)⟩

instance (config : AuctionConfig) : IsTrans Bid (RanksBefore config) :=
  ⟨fun _ _ _ => le_trans⟩

theorem bidComparator_nonpos_iff (config : AuctionConfig) (a b : Bid) :
    bidComparator config a b ≤ 0 ↔ RanksBefore config a b := by
  cases h : config.selectionStrategy <;>
    simp only [bidComparator, RanksBefore, rankKey, balancedScore, h, sub_nonpos, neg_le_neg_iff]

theorem sortBids_eq_insertionSort (bids : List Bid) (config : AuctionConfig) :
    sortBids bids config = bids.insertionSort (RanksBefore config) := by
  have he : (fun a b => bidComparator config a b ≤ 0) = RanksBefore config := by
    funext a b
    exact propext (bidComparator_nonpos_iff config a b)
  unfold sortBids arraySort
  congr!

theorem sortBids_isStableSort (bids : List Bid) (config : AuctionConfig) :
    IsStableSort (RanksBefore config) bids (sortBids bids config) := by
  rw [sortBids_eq_insertionSort]
  exact insertionSort_isStableSort bids

theorem sortBids_perm (bids : List Bid) (config : AuctionConfig) :
    (sortBids bids config).Perm bids :=
  (sortBids_isStableSort bids config).perm

/-- What the loop tests before accepting `bid` on top of the bids taken so far. -/
def admits (powerMW : ℚ) (config : AuctionConfig) (taken : List Bid) (bid : Bid) : Bool :=
  decide (taken.length < config.maxAcceptedBids ∧ 0 < powerMW - sumOver Bid.powerMW taken ∧
    bid.powerMW ≤ powerMW - sumOver Bid.powerMW taken)

theorem sumOver_powerMW_eq_load (bids : List Bid) :
    sumOver Bid.powerMW bids = Knapsack.load Bid.powerMW bids := sumOver_eq_sum _ _

/-- The tests of the loop are those of a packing of the demand. -/
theorem admits_eq_fits (powerMW : ℚ) (config : AuctionConfig) :
    admits powerMW config =
      Knapsack.fits Bid.powerMW (fun n => (n : ℚ) < config.maxAcceptedBids) powerMW := by
  funext taken bid
  simp only [admits, Knapsack.fits, sumOver_powerMW_eq_load]

theorem admits_eq_fits_cap {powerMW : ℚ} {config : AuctionConfig} {cap : ℕ}
    (hcap : config.maxAcceptedBids = cap) :
    admits powerMW config = Knapsack.fits Bid.powerMW (· < cap) powerMW := by
  funext taken bid
  simp only [admits, Knapsack.fits, sumOver_powerMW_eq_load, hcap, Nat.cast_lt]

/-- The running remainder is the demand less the power taken. -/
def Selection.Balanced (powerMW : ℚ) (s : Selection) : Prop :=
  s.remainingPower = powerMW - sumOver Bid.powerMW s.selectedBids

theorem selectStep_admits {powerMW : ℚ} {config : AuctionConfig} {s : Selection} (bid : Bid)
    (h : s.Balanced powerMW) :
    selectStep config s bid =
      if admits powerMW config s.selectedBids bid then s.accept bid else s.reject bid := by
  unfold Selection.Balanced at h
  simp only [selectStep, admits, ← h, decide_eq_true_eq]
  split_ifs <;> first | rfl | (exfalso; grind)

theorem Selection.Balanced.accept {powerMW : ℚ} {s : Selection} (bid : Bid)
    (h : s.Balanced powerMW) : (s.accept bid).Balanced powerMW := by
  unfold Selection.Balanced at *
  simp only [Selection.accept, sumOver_eq_sum, List.map_append, List.sum_append, h]
  simp
  ring

/-- From any balanced state the loop takes the greedy positions and rejects the others. -/
theorem foldl_selectStep {powerMW : ℚ} {config : AuctionConfig} (xs : List Bid) {s : Selection}
    (h : s.Balanced powerMW) :
    let m := flags (admits powerMW config) s.selectedBids xs
    let t := xs.foldl (selectStep config) s
    t.selectedBids = s.selectedBids ++ pick m xs ∧
      t.rejectedBids = s.rejectedBids ++ leave m xs ∧ t.Balanced powerMW := by
  induction xs generalizing s with
  | nil => simpa using h
  | cons x xs ih =>
    simp only [List.foldl_cons, selectStep_admits x h, flags]
    split
    · obtain ⟨hs, hr, hb⟩ := ih (h.accept x)
      exact ⟨by simpa [Selection.accept] using hs, by simpa [Selection.accept] using hr, hb⟩
    · obtain ⟨hs, hr, hb⟩ := ih (s := s.reject x) h
      exact ⟨by simpa [Selection.reject] using hs, by simpa [Selection.reject] using hr, hb⟩

theorem selectWinningBids_eq (sortedBids : List Bid) (event : RedispatchEvent)
    (config : AuctionConfig) :
    let m := flags (admits event.powerMW config) [] sortedBids
    (selectWinningBids sortedBids event config).selectedBids = pick m sortedBids ∧
      (selectWinningBids sortedBids event config).rejectedBids = leave m sortedBids := by
  have hb : (⟨[], [], event.powerMW⟩ : Selection).Balanced event.powerMW := by
    simp [Selection.Balanced, sumOver]
  obtain ⟨hs, hr, -⟩ : _ ∧ _ ∧ Selection.Balanced _ (sortedBids.foldl (selectStep config) _) :=
    foldl_selectStep sortedBids hb
  exact ⟨by simpa [selectWinningBids] using hs, by simpa [selectWinningBids] using hr⟩

theorem selectWinningBids_balanced (sortedBids : List Bid) (event : RedispatchEvent)
    (config : AuctionConfig) :
    (selectWinningBids sortedBids event config).Balanced event.powerMW := by
  have hb : (⟨[], [], event.powerMW⟩ : Selection).Balanced event.powerMW := by
    simp [Selection.Balanced, sumOver]
  exact (foldl_selectStep sortedBids hb).2.2

/-- A set of bids the operator could award: it covers at most the demand with at most
`cap` members. -/
def Feasible (powerMW : ℚ) (cap : ℕ) (bids : List Bid) : Prop :=
  sumOver Bid.powerMW bids ≤ powerMW ∧ bids.length ≤ cap

theorem feasible_hereditary {powerMW : ℚ} {cap : ℕ} {config : AuctionConfig}
    (hcap : config.maxAcceptedBids = cap) :
    Hereditary (fun bid : Bid => 0 < bid.powerMW) (Feasible powerMW cap)
      (admits powerMW config) := by
  have hfeasible : Feasible powerMW cap = fun bids =>
      Knapsack.load Bid.powerMW bids ≤ powerMW ∧ bids.length ≤ cap := by
    funext bids
    rw [Feasible, sumOver_powerMW_eq_load]
  rw [admits_eq_fits_cap hcap, hfeasible]
  exact Knapsack.hereditary powerMW cap

theorem mem_sortBids_iff {input : AuctionInput} {bid : Bid} :
    bid ∈ sortBids (filterValidBids input.bids input.config) input.config ↔
      bid ∈ input.bids ∧ isValidBid input.config bid = true :=
  (sortBids_perm _ _).mem_iff.trans List.mem_filter

theorem ranked_power_pos {input : AuctionInput} (hmin : 0 < input.config.minBidPowerMW)
    {bid : Bid} (h : bid ∈ sortBids (filterValidBids input.bids input.config) input.config) :
    0 < bid.powerMW :=
  hmin.trans_le (isValidBid_iff.mp (mem_sortBids_iff.mp h).2).1

/-- The award is the lexicographically greatest feasible set along the ranking, and what
is not awarded is rejected in rank order. -/
theorem processAuction_award (input : AuctionInput) (cap : ℕ) (ranked : List Bid)
    (hvalid : validateInput input = .ok ()) (hmin : 0 < input.config.minBidPowerMW)
    (hcap : input.config.maxAcceptedBids = cap)
    (hranked : IsStableSort (RanksBefore input.config)
      (filterValidBids input.bids input.config) ranked) :
    ∃ output m, processAuction input = .ok output ∧
      IsGreatest {m : List Bool | m.length = ranked.length ∧
        Feasible input.redispatchEvent.powerMW cap (pick m ranked)} m ∧
      output.selectedBids = pick m ranked ∧ output.rejectedBids = leave m ranked ∧
      (output.selectedBids ++ output.rejectedBids).Perm ranked := by
  obtain ⟨output, hout, hsel, hrej, -⟩ := processAuction_ok hvalid
  obtain rfl := (sortBids_isStableSort _ _).unique hranked
  obtain ⟨hs, hr⟩ := selectWinningBids_eq
    (sortBids (filterValidBids input.bids input.config) input.config)
    input.redispatchEvent input.config
  rw [← hsel] at hs
  rw [← hrej] at hr
  have hpos := (validateInput_ok_iff.mp hvalid).2
  have hgood : ∀ bid ∈ sortBids (filterValidBids input.bids input.config) input.config,
      0 < bid.powerMW := fun bid hb => ranked_power_pos hmin hb
  have hzero : Feasible input.redispatchEvent.powerMW cap [] :=
    ⟨by simpa [sumOver] using hpos.le, Nat.zero_le _⟩
  refine ⟨output, _, hout, flags_isGreatest (feasible_hereditary hcap) hgood hzero, hs, hr, ?_⟩
  rw [hs, hr]
  exact pick_append_leave_perm (flags_length _ _ _)

def sampleBid (id : String) (powerMW pricePerMW : ℚ) : Bid :=
  ⟨id, "auction", "participant-" ++ id, powerMW, pricePerMW, .submitted⟩

/-- The second-ranked bid no longer fits after the first, and the third does. -/
def skippingInput : AuctionInput where
  auction := ⟨"auction", "redispatch-1", 100, 50, .active⟩
  redispatchEvent := ⟨"redispatch-1", 100, 50, .pending⟩
  bids := [sampleBid "1" 40 30, sampleBid "2" 60 20, sampleBid "3" 60 10, sampleBid "4" 20 80]
  config := DEFAULT_AUCTION_CONFIG

def skippingRanking : List Bid :=
  [sampleBid "3" 60 10, sampleBid "2" 60 20, sampleBid "1" 40 30]

theorem skippingRanking_isStableSort :
    IsStableSort (RanksBefore skippingInput.config)
      (filterValidBids skippingInput.bids skippingInput.config) skippingRanking := by
  have hs := sortBids_isStableSort
    (filterValidBids skippingInput.bids skippingInput.config) skippingInput.config
  rwa [show sortBids (filterValidBids skippingInput.bids skippingInput.config)
    skippingInput.config = skippingRanking by decide +kernel] at hs

theorem skippingInput_award :
    ∃ output m, processAuction skippingInput = .ok output ∧
      IsGreatest {m : List Bool | m.length = skippingRanking.length ∧
        Feasible skippingInput.redispatchEvent.powerMW 10 (pick m skippingRanking)} m ∧
      output.selectedBids = pick m skippingRanking ∧
      output.rejectedBids = leave m skippingRanking ∧
      (output.selectedBids ++ output.rejectedBids).Perm skippingRanking :=
  processAuction_award skippingInput 10 skippingRanking (by decide +kernel) (by decide +kernel)
    (by decide +kernel) skippingRanking_isStableSort

end GridFlex
