import GridFlex.Auction.Savings
import GridFlex.Frontend.Controller

/-! What the two paths to `processAuction` cost the operator. The controller puts the cost of the
event into the configuration, `StandardAuctionService` leaves its own there. -/
namespace GridFlex
open Greedy

/-- The payout keeps below four fifths of the cost it avoids, and the auction never makes the
event dearer. -/
structure OperatorGains (event : RedispatchEvent) (result : AuctionResult) : Prop where
  payout : result.participantPayoutEUR ≤ 4 / 5 * event.costPerMW * result.acceptedPowerMW
  total : result.participantPayoutEUR + result.remainingPowerMW * result.remainingCostPerMW ≤
    event.powerMW * event.costPerMW

theorem Snapshot.operatorGains {state : Snapshot} {output : AuctionOutput}
    (hcost : 0 ≤ state.redispatchEvent.costPerMW)
    (hout : processAuction state.auctionInput = .ok output) :
    OperatorGains state.redispatchEvent output.result := by
  have hmin : (0 : ℚ) ≤ state.auctionInput.config.minBidPowerMW := zero_le_one
  have hlimits := processAuction_withinLimits hmin hout
  have hcostPerMW : output.result.remainingCostPerMW = state.redispatchEvent.costPerMW := by
    rw [(processAuction_inv hout).2.2]
    rfl
  have hlimit : state.auctionInput.config.priceLimit =
      state.redispatchEvent.costPerMW * (4 / 5) := rfl
  have hpayout := hlimits.payout
  have hremaining : output.result.remainingPowerMW =
      state.redispatchEvent.powerMW - output.result.acceptedPowerMW := hlimits.remaining
  have hsaved : 0 ≤ state.redispatchEvent.costPerMW * output.result.acceptedPowerMW :=
    mul_nonneg hcost hlimits.nonneg
  rw [hlimit] at hpayout
  refine ⟨by linarith, ?_⟩
  rw [hcostPerMW, hremaining]
  linarith

/-- Whatever the participants bid, the result that `triggerAuction` stores saves the operator
money. -/
theorem trigger_never_loses (ids : ℕ → IdSource) (f : Frontend) (state : Snapshot)
    (prices quantities : List ℕ) (hparticipants : state.participants ≠ [])
    (hpower : 0 < state.redispatchEvent.powerMW) (hcost : 0 ≤ state.redispatchEvent.costPerMW) :
    ∃ result, (f.resume ids (.collectingData state)
        (.collected prices quantities)).1.model.auctionResult = some result ∧
      OperatorGains state.redispatchEvent result := by
  have hbids : state.bids ≠ [] := by
    unfold Snapshot.bids
    simpa using hparticipants
  have hvalid : validateInput state.auctionInput = .ok () :=
    validateInput_ok_iff.mpr ⟨hbids, hpower⟩
  obtain ⟨output, hout, -⟩ := processAuction_ok hvalid
  refine ⟨output.result, ?_, state.operatorGains hcost hout⟩
  simp only [Frontend.resume, hout]
  rfl

theorem initialParticipants_gain :
    let state : Snapshot := ⟨⟨"evt_ssr_1", "redispatch-1", 100, 50, .active⟩, mockRedispatchEvent,
      initialParticipants, fun _ => 0⟩
    ∃ result, ((Frontend.initial mockRedispatchEvent).resume (fun _ => .server)
        (.collectingData state) (.collected [] [])).1.model.auctionResult = some result ∧
      OperatorGains mockRedispatchEvent result :=
  trigger_never_loses _ _ _ [] [] (by decide) (by decide +kernel) (by decide +kernel)

/-- The `algorithmType` of `StandardAuctionService`. -/
inductive AlgorithmType where
  | default | costSavings | powerMaximization | balanced
  deriving DecidableEq, Repr

def createAlgorithm : AlgorithmType → AuctionConfig
  | .costSavings => createOptimized .costSavings
  | .powerMaximization => createOptimized .powerMaximization
  | .balanced => createOptimized .balanced
  | .default => DEFAULT_AUCTION_CONFIG

/-- What the factories leave alone. -/
structure FactoryDefaults (config : AuctionConfig) : Prop where
  minBidPowerMW : config.minBidPowerMW = 1
  maxBidPowerMW : config.maxBidPowerMW = 1000
  costPerMWThreshold : config.costPerMWThreshold = 50
  maxAcceptedBids : 1 ≤ config.maxAcceptedBids
  factor_pos : 0 < config.priceCompetitivenessFactor
  factor_le_one : config.priceCompetitivenessFactor ≤ 1

theorem createAlgorithm_defaults (type : AlgorithmType) :
    FactoryDefaults (createAlgorithm type) := by
  cases type <;> constructor <;> simp only [createAlgorithm, createOptimized,
    DEFAULT_AUCTION_CONFIG] <;> norm_num

/-- The bid is as cheap as the competitiveness test means it to be for this event. -/
def competesWith (config : AuctionConfig) (event : RedispatchEvent) (bid : Bid) : Bool :=
  decide (bid.pricePerMW ≤ config.priceCompetitivenessFactor * event.costPerMW)

/-- What the service path pays is below the cost of the event it serves. -/
structure ServesEvent (config : AuctionConfig) (event : RedispatchEvent) (output : AuctionOutput) :
    Prop where
  price : ∀ bid ∈ output.selectedBids,
    bid.pricePerMW ≤ config.priceCompetitivenessFactor * event.costPerMW
  payout : output.result.participantPayoutEUR ≤ output.result.acceptedPowerMW * event.costPerMW

/-- A valid bid that does not compete finds no room behind the competing bids ranked before it. -/
def DearBidsCrowdedOut (input : AuctionInput) : Prop :=
  ∀ before bid after, sortBids (filterValidBids input.bids input.config) input.config =
      before ++ bid :: after →
    competesWith input.config input.redispatchEvent bid = false →
      admits input.redispatchEvent.powerMW input.config
        (selectWinningBids (before.filter (competesWith input.config input.redispatchEvent))
          input.redispatchEvent input.config).selectedBids bid = false

theorem servesEvent_iff {input : AuctionInput} {output : AuctionOutput}
    (hconfig : FactoryDefaults input.config) (hcost : 0 ≤ input.redispatchEvent.costPerMW)
    (hout : processAuction input = .ok output) :
    ServesEvent input.config input.redispatchEvent output ↔ DearBidsCrowdedOut input := by
  obtain ⟨-, hsel, hresult⟩ := processAuction_inv hout
  have hselected : output.selectedBids = awardedBids input := hsel
  have hprices : (∀ bid ∈ output.selectedBids,
      competesWith input.config input.redispatchEvent bid = true) ↔ DearBidsCrowdedOut input := by
    rw [hsel, (selectWinningBids_eq _ _ _).1, forall_pick_flags_iff]
    simp only [DearBidsCrowdedOut, (selectWinningBids_eq _ _ _).1, List.nil_append]
  rw [← hprices]
  constructor
  · intro h bid hbid
    exact decide_eq_true (h.price bid hbid)
  · intro h
    have hprice : ∀ bid ∈ output.selectedBids, bid.pricePerMW ≤
        input.config.priceCompetitivenessFactor * input.redispatchEvent.costPerMW :=
      fun bid hbid => of_decide_eq_true (h bid hbid)
    refine ⟨hprice, ?_⟩
    have hpositive : ∀ bid ∈ output.selectedBids, 0 ≤ bid.powerMW := by
      intro bid hbid
      have hpower := (isValidBid_iff.mp (awardedBids_valid (hselected ▸ hbid))).1
      rw [hconfig.minBidPowerMW] at hpower
      exact zero_le_one.trans hpower
    have hfactor : input.config.priceCompetitivenessFactor * input.redispatchEvent.costPerMW ≤
        input.redispatchEvent.costPerMW := mul_le_of_le_one_left hcost hconfig.factor_le_one
    have hvalue : sumOver bidValue output.selectedBids ≤
        input.redispatchEvent.costPerMW * sumOver Bid.powerMW output.selectedBids :=
      sumOver_bidValue_le fun bid hbid => ⟨hpositive bid hbid, (hprice bid hbid).trans hfactor⟩
    simp only [hresult, calculateAuctionResult]
    linarith

/-- For an event of at least the default cost the competitiveness test is strict enough. -/
theorem dearBidsCrowdedOut_of_cost {input : AuctionInput} (hconfig : FactoryDefaults input.config)
    (hcost : 50 ≤ input.redispatchEvent.costPerMW) : DearBidsCrowdedOut input := by
  intro before bid after hranked hdear
  have hmem : bid ∈ sortBids (filterValidBids input.bids input.config) input.config := by
    rw [hranked]
    simp
  have hprice := (isValidBid_iff.mp (mem_sortBids_iff.mp hmem).2).2.2
  have hfactor : input.config.priceCompetitivenessFactor * 50 ≤
      input.config.priceCompetitivenessFactor * input.redispatchEvent.costPerMW :=
    mul_le_mul_of_nonneg_left hcost hconfig.factor_pos.le
  rw [AuctionConfig.priceLimit, hconfig.costPerMWThreshold] at hprice
  exact absurd (show bid.pricePerMW ≤ _ by linarith) (of_decide_eq_false hdear)

/-- No bid has room in an event smaller than the smallest bid. -/
theorem dearBidsCrowdedOut_of_power {input : AuctionInput} (hconfig : FactoryDefaults input.config)
    (hpower : input.redispatchEvent.powerMW < 1) : DearBidsCrowdedOut input := by
  intro before bid after hranked _
  have hvalid : ∀ b ∈ before ++ bid :: after, 1 ≤ b.powerMW := by
    intro b hb
    have h := (isValidBid_iff.mp (mem_sortBids_iff.mp (hranked ▸ hb)).2).1
    rwa [hconfig.minBidPowerMW] at h
  have hbid : 1 ≤ bid.powerMW := hvalid bid (by simp)
  have htaken : 0 ≤ sumOver Bid.powerMW (selectWinningBids
      (before.filter (competesWith input.config input.redispatchEvent))
      input.redispatchEvent input.config).selectedBids := by
    apply sumOver_powerMW_nonneg
    intro b hb
    rw [(selectWinningBids_eq _ _ _).1] at hb
    have hbefore : b ∈ before := List.filter_sublist.subset ((pick_sublist _ _).subset hb)
    exact zero_le_one.trans (hvalid b (List.mem_append_left _ hbefore))
  apply decide_eq_false
  rintro ⟨-, -, hfits⟩
  linarith

/-- The smallest bid at the highest price that the default threshold lets pass. -/
def limitBid (config : AuctionConfig) : Bid :=
  ⟨"bid-1", "auction", "participant-1", 1, 50 * config.priceCompetitivenessFactor, .submitted⟩

theorem limitBid_admitted {config : AuctionConfig} (hconfig : FactoryDefaults config)
    (auction : Auction) {event : RedispatchEvent} (hcost : event.costPerMW < 50)
    (hpower : 1 ≤ event.powerMW) :
    ¬DearBidsCrowdedOut ⟨auction, event, [limitBid config], config⟩ := by
  intro h
  have hvalid : isValidBid config (limitBid config) = true := by
    rw [isValidBid_iff, hconfig.minBidPowerMW, hconfig.maxBidPowerMW, AuctionConfig.priceLimit,
      hconfig.costPerMWThreshold]
    exact ⟨le_rfl, by norm_num [limitBid], le_rfl⟩
  have hranked : sortBids (filterValidBids [limitBid config] config) config =
      [] ++ limitBid config :: [] := by
    simp [filterValidBids, hvalid, sortBids, arraySort]
  have hdear : competesWith config event (limitBid config) = false := by
    apply decide_eq_false
    have := mul_lt_mul_of_pos_left hcost hconfig.factor_pos
    simp only [limitBid]
    linarith
  have hroom := h [] (limitBid config) [] hranked hdear
  refine of_decide_eq_false hroom ⟨?_, ?_, ?_⟩
  · exact zero_lt_one.trans_le hconfig.maxAcceptedBids
  · simpa [selectWinningBids, sumOver] using zero_lt_one.trans_le hpower
  · simpa [selectWinningBids, sumOver, limitBid] using hpower

/-- The service path serves an event with these bids exactly when dear bids are crowded out, and
does so whatever the bids exactly for events of at least the default cost or of less power than
any bid. -/
theorem service_serves_event_iff (type : AlgorithmType) (event : RedispatchEvent)
    (hpower : 0 < event.powerMW) (hcost : 0 ≤ event.costPerMW) :
    (∀ auction bids, bids ≠ [] → ∃ output,
        processAuction ⟨auction, event, bids, createAlgorithm type⟩ = .ok output ∧
        Frontend.standardProcessAuction (createAlgorithm type) auction event bids =
          .ok output.result ∧
        (ServesEvent (createAlgorithm type) event output ↔
          DearBidsCrowdedOut ⟨auction, event, bids, createAlgorithm type⟩)) ∧
      ((∀ auction bids, bids ≠ [] →
          DearBidsCrowdedOut ⟨auction, event, bids, createAlgorithm type⟩) ↔
        50 ≤ event.costPerMW ∨ event.powerMW < 1) := by
  have hconfig : FactoryDefaults (createAlgorithm type) := createAlgorithm_defaults type
  refine ⟨?_, ?_, ?_⟩
  · intro auction bids hbids
    obtain ⟨output, hout, -⟩ :=
      processAuction_ok (validateInput_ok_iff.mpr ⟨hbids, hpower⟩ :
        validateInput ⟨auction, event, bids, createAlgorithm type⟩ = .ok ())
    refine ⟨output, hout, ?_, servesEvent_iff hconfig hcost hout⟩
    simp only [Frontend.standardProcessAuction, hout]
  · intro h
    by_contra hnot
    rw [not_or, not_le, not_lt] at hnot
    exact limitBid_admitted hconfig ⟨"auction", event.id, 100, 50, .active⟩ hnot.1 hnot.2
      (h _ _ (List.cons_ne_nil _ _))
  · rintro (h | h) auction bids -
    · exact dearBidsCrowdedOut_of_cost hconfig h
    · exact dearBidsCrowdedOut_of_power hconfig h

def cheapEvent : RedispatchEvent := ⟨"redispatch-1", 100, 10, .pending⟩

theorem cheapEvent_served_iff :
    (∀ auction bids, bids ≠ [] → ∃ output,
        processAuction ⟨auction, cheapEvent, bids, createAlgorithm .default⟩ = .ok output ∧
        Frontend.standardProcessAuction (createAlgorithm .default) auction cheapEvent bids =
          .ok output.result ∧
        (ServesEvent (createAlgorithm .default) cheapEvent output ↔
          DearBidsCrowdedOut ⟨auction, cheapEvent, bids, createAlgorithm .default⟩)) ∧
      ((∀ auction bids, bids ≠ [] →
          DearBidsCrowdedOut ⟨auction, cheapEvent, bids, createAlgorithm .default⟩) ↔
        50 ≤ cheapEvent.costPerMW ∨ cheapEvent.powerMW < 1) :=
  service_serves_event_iff .default cheapEvent (by decide +kernel) (by decide +kernel)

/-- The service accepts 50 MW at 30 EUR/MW to avoid a cost of 10 EUR/MW. -/
theorem cheapEvent_overpaid :
    ∃ output, processAuction ⟨⟨"auction", "redispatch-1", 100, 50, .active⟩, cheapEvent,
        [sampleBid "1" 50 30], createAlgorithm .default⟩ = .ok output ∧
      ¬ServesEvent (createAlgorithm .default) cheapEvent output := by
  refine ⟨_, rfl, ?_⟩
  intro h
  exact absurd h.payout (by decide +kernel)

end GridFlex
