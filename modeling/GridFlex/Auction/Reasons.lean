import GridFlex.Auction.Packing

/-! The reasons that the entries of a result give for a rejection. They are read off the price
afterwards, so that a bid dropped for its power is told that capacity was short. -/
namespace GridFlex
open Greedy Keyed

/-- What an entry says about the rejection of its bid is what happened to it. -/
structure TruthfulReason (input : AuctionInput) (output : AuctionOutput) (bid : Bid)
    (entry : ParticipantResolution) : Prop where
  passes : entry.status = .rejected → entry.reason = "Bid rejected - insufficient capacity" →
    isValidBid input.config bid = true
  exceeds : entry.status = .rejected → entry.reason = "Bid rejected - insufficient capacity" →
    input.redispatchEvent.powerMW < sumOver Bid.powerMW (output.selectedBids ++ [bid]) ∨
      input.config.maxAcceptedBids < (output.selectedBids ++ [bid]).length
  tooDear : entry.status = .rejected → entry.reason = "Bid rejected - price too high" →
    isValidBid input.config bid = false ∧ input.config.priceLimit < bid.pricePerMW

/-- Every bid that passes the price test passes the power tests as well. -/
def OnlyPriceExcludes (input : AuctionInput) : Prop :=
  ∀ bid ∈ input.bids, bid.pricePerMW ≤ input.config.priceLimit →
    input.config.minBidPowerMW ≤ bid.powerMW ∧ bid.powerMW ≤ input.config.maxBidPowerMW

theorem resolveParticipant_rejected {ids : List String} {config : AuctionConfig} {bid : Bid} :
    (resolveParticipant ids config bid).status = .rejected ↔ bid.id ∉ ids := by
  simp only [resolveParticipant]
  split_ifs <;> simp_all

theorem resolveParticipant_reason {ids : List String} {config : AuctionConfig} {bid : Bid}
    (h : bid.id ∉ ids) :
    (resolveParticipant ids config bid).reason =
      if config.priceLimit < bid.pricePerMW then "Bid rejected - price too high"
      else "Bid rejected - insufficient capacity" := by
  simp only [resolveParticipant, h, decide_false, Bool.false_eq_true, ↓reduceIte]
  rfl

/-- A valid bid that lost its place in the loop has none at the end either. -/
theorem rejected_exceeds {input : AuctionInput} (hmin : 0 < input.config.minBidPowerMW) {bid : Bid}
    (hmem : bid ∈ input.bids) (hbid : isValidBid input.config bid = true)
    (hlost : bid ∉ awardedBids input) :
    input.redispatchEvent.powerMW < sumOver Bid.powerMW (awardedBids input ++ [bid]) ∨
      input.config.maxAcceptedBids < (awardedBids input ++ [bid]).length := by
  have hranked := mem_sortBids_iff.mpr ⟨hmem, hbid⟩
  have hpower : 0 < bid.powerMW := ranked_power_pos hmin hranked
  have hfits : admits input.redispatchEvent.powerMW input.config (awardedBids input) bid =
      false := by
    rw [awardedBids_eq_takes, admits_eq_fits] at hlost ⊢
    have hend := Knapsack.not_fits_takes (room_antitone input.config)
      (fun b hb => (ranked_power_pos hmin hb).le) hranked hlost
    rwa [List.nil_append] at hend
  rw [admits_eq_fits, Knapsack.not_fits_iff_of_pos hpower] at hfits
  rw [or_iff_not_imp_right, not_lt, sumOver_powerMW_eq_load, Knapsack.load_append,
    Knapsack.load_cons, Knapsack.load_nil, add_zero, List.length_append, List.length_singleton,
    Nat.cast_add, Nat.cast_one]
  intro hcount
  exact hfits (by linarith)

theorem truthfulReason_iff {input : AuctionInput} {output : AuctionOutput}
    (hmin : 0 < input.config.minBidPowerMW) (hn : (input.bids.map Bid.id).Nodup)
    (hsel : output.selectedBids = awardedBids input) {bid : Bid} (hmem : bid ∈ input.bids) :
    TruthfulReason input output bid
        (resolveParticipant (output.selectedBids.map Bid.id) input.config bid) ↔
      (bid.pricePerMW ≤ input.config.priceLimit → isValidBid input.config bid = true) := by
  have hid : bid.id ∈ (awardedBids input).map Bid.id ↔ bid ∈ awardedBids input :=
    key_mem_iff hn (awardedBids_subperm input) hmem
  rw [hsel]
  constructor
  · intro h hprice
    by_contra hinvalid
    have hlost : bid.id ∉ (awardedBids input).map Bid.id :=
      fun hwon => hinvalid (awardedBids_valid (hid.mp hwon))
    refine hinvalid (h.passes (resolveParticipant_rejected.mpr hlost) ?_)
    rw [resolveParticipant_reason hlost, if_neg (not_lt.mpr hprice)]
  · intro h
    have hcheap : ∀ ids : List String, bid.id ∉ ids →
        (resolveParticipant ids input.config bid).reason =
          "Bid rejected - insufficient capacity" → bid.pricePerMW ≤ input.config.priceLimit := by
      intro ids hids hreason
      by_contra hprice
      rw [resolveParticipant_reason hids, if_pos (not_le.mp hprice)] at hreason
      exact absurd hreason (by decide)
    constructor
    case passes =>
      intro hstatus hreason
      exact h (hcheap _ (resolveParticipant_rejected.mp hstatus) hreason)
    case exceeds =>
      intro hstatus hreason
      have hlost := resolveParticipant_rejected.mp hstatus
      rw [hsel]
      exact rejected_exceeds hmin hmem (h (hcheap _ hlost hreason))
        fun hwon => hlost (hid.mpr hwon)
    case tooDear =>
      intro hstatus hreason
      rw [resolveParticipant_reason (resolveParticipant_rejected.mp hstatus)] at hreason
      have hprice : input.config.priceLimit < bid.pricePerMW := by
        by_contra hprice
        rw [if_neg hprice] at hreason
        exact absurd hreason (by decide)
      refine ⟨?_, hprice⟩
      by_contra hvalid
      exact not_le.mpr hprice (isValidBid_iff.mp ((Bool.not_eq_false _).mp hvalid)).2.2

/-- The reasons of a result are truthful exactly when no bid is dropped for its power alone. -/
theorem reasons_truthful_iff (input : AuctionInput) (hvalid : validateInput input = .ok ())
    (hmin : 0 < input.config.minBidPowerMW) (hn : (input.bids.map Bid.id).Nodup) :
    ∃ output, processAuction input = .ok output ∧
      (List.Forall₂ (TruthfulReason input output) input.bids
          output.result.participantResolutions ↔
        OnlyPriceExcludes input) := by
  obtain ⟨output, hout, hsel, -, hresult⟩ := processAuction_ok hvalid
  refine ⟨output, hout, ?_⟩
  rw [hresult]
  simp only [calculateAuctionResult, generateParticipantResolutions]
  rw [List.forall₂_map_right_iff, List.forall₂_same]
  refine forall₂_congr fun bid hmem => ?_
  rw [truthfulReason_iff hmin hn hsel hmem]
  refine imp_congr_right fun hprice => ?_
  rw [isValidBid_iff]
  tauto

theorem skippingInput_truthful :
    ∃ output, processAuction skippingInput = .ok output ∧
      (List.Forall₂ (TruthfulReason skippingInput output) skippingInput.bids
          output.result.participantResolutions ↔
        OnlyPriceExcludes skippingInput) :=
  reasons_truthful_iff skippingInput (by decide +kernel) (by decide +kernel) (by decide +kernel)

/-- A bid below the least power, cheap and alone. -/
def smallBidInput : AuctionInput :=
  { skippingInput with bids := [sampleBid "1" (1 / 2) 30] }

/-- It is told that capacity was short while the whole demand is unserved. -/
theorem smallBidInput_misinformed :
    validateInput smallBidInput = .ok () ∧ 0 < smallBidInput.config.minBidPowerMW ∧
      (smallBidInput.bids.map Bid.id).Nodup ∧
      ∃ output, processAuction smallBidInput = .ok output ∧
        ¬List.Forall₂ (TruthfulReason smallBidInput output) smallBidInput.bids
          output.result.participantResolutions := by
  refine ⟨by decide +kernel, by decide +kernel, by decide +kernel, _, rfl, ?_⟩
  intro h
  obtain ⟨h, -⟩ := List.forall₂_cons.mp h
  exact absurd (h.passes (by decide +kernel) (by decide +kernel)) (by decide +kernel)

end GridFlex
