import GridFlex.Frontend.Savings
import GridFlex.Frontend.Service
import GridFlex.Lib.Register
import GridFlex.Lib.Transition

/-! Embedding of the object behind `services/auction-service.ts`. It keeps the configuration of its
algorithm and the metrics of its last auction, and both are read off the calls that it has had. -/
namespace GridFlex
open Register Transition

/-- `Partial<AuctionConfig>`, by the settings that are there. -/
structure PartialConfig where
  maxAcceptedBids : Option ℚ
  minBidPowerMW : Option ℚ
  maxBidPowerMW : Option ℚ
  costPerMWThreshold : Option ℚ
  priceCompetitivenessFactor : Option ℚ
  selectionStrategy : Option SelectionStrategy
  allowPartialBids : Option Bool
  deriving DecidableEq, Repr

/-- `AuctionAlgorithm.updateConfig`, over the configuration that is all the algorithm keeps. -/
def AuctionConfig.updateConfig (config : AuctionConfig) (newConfig : PartialConfig) :
    AuctionConfig where
  maxAcceptedBids := newConfig.maxAcceptedBids.getD config.maxAcceptedBids
  minBidPowerMW := newConfig.minBidPowerMW.getD config.minBidPowerMW
  maxBidPowerMW := newConfig.maxBidPowerMW.getD config.maxBidPowerMW
  costPerMWThreshold := newConfig.costPerMWThreshold.getD config.costPerMWThreshold
  priceCompetitivenessFactor :=
    newConfig.priceCompetitivenessFactor.getD config.priceCompetitivenessFactor
  selectionStrategy := newConfig.selectionStrategy.getD config.selectionStrategy
  allowPartialBids := newConfig.allowPartialBids.getD config.allowPartialBids

structure StandardAuctionService where
  algorithm : AuctionConfig
  lastMetrics : Option AlgorithmMetrics
  deriving DecidableEq, Repr

inductive AuctionServiceCall where
  | processAuction (auction : Auction) (redispatchEvent : RedispatchEvent) (bids : List Bid)
  | updateAlgorithmConfig (config : PartialConfig)
  | getAlgorithmMetrics
  deriving DecidableEq, Repr

inductive AuctionServiceReply where
  | result (result : Except String AuctionResult)
  | updated
  | metrics (metrics : Option AlgorithmMetrics)

namespace StandardAuctionService

def create (algorithmType : AlgorithmType) : StandardAuctionService :=
  ⟨createAlgorithm algorithmType, none⟩

/-- An auction that fails is thrown out of the method before the metrics are stored. -/
def processAuction (s : StandardAuctionService) (auction : Auction)
    (redispatchEvent : RedispatchEvent) (bids : List Bid) :
    StandardAuctionService × Except String AuctionResult :=
  match GridFlex.processAuction ⟨auction, redispatchEvent, bids, s.algorithm⟩ with
  | .ok output => ({ s with lastMetrics := some output.algorithmMetrics }, .ok output.result)
  | .error message => (s, .error ("Auction processing failed: " ++ message))

def updateAlgorithmConfig (s : StandardAuctionService) (config : PartialConfig) :
    StandardAuctionService :=
  { s with algorithm := s.algorithm.updateConfig config }

def getAlgorithmMetrics (s : StandardAuctionService) : Option AlgorithmMetrics := s.lastMetrics

def call (s : StandardAuctionService) :
    AuctionServiceCall → StandardAuctionService × AuctionServiceReply
  | .processAuction auction redispatchEvent bids =>
      let (s, result) := s.processAuction auction redispatchEvent bids
      (s, .result result)
  | .updateAlgorithmConfig config => (s.updateAlgorithmConfig config, .updated)
  | .getAlgorithmMetrics => (s, .metrics s.getAlgorithmMetrics)

def step (s : StandardAuctionService) (c : AuctionServiceCall) : StandardAuctionService :=
  (s.call c).1

end StandardAuctionService

/-- `AuctionServiceFactory.createCustom`. -/
def AuctionServiceFactory.createCustom (config : PartialConfig) : StandardAuctionService :=
  (StandardAuctionService.create .default).updateAlgorithmConfig config

/-- `AuctionAlgorithmFactory.createCustom`, which merges before there is an algorithm. -/
def AuctionAlgorithmFactory.createCustom (config : PartialConfig) : AuctionConfig :=
  DEFAULT_AUCTION_CONFIG.updateConfig config

/-! What a service with these settings answers after these calls. -/

def AuctionServiceCall.patch : AuctionServiceCall → Option PartialConfig
  | .updateAlgorithmConfig config => some config
  | _ => none

/-- Every setting as it was last given, or as the factory has set it. -/
def configured (base : AuctionConfig) (past : List AuctionServiceCall) : AuctionConfig :=
  let last {α : Type} (setting : PartialConfig → Option α) : Option α :=
    latest (fun c => c.patch.bind setting) past
  { maxAcceptedBids := (last PartialConfig.maxAcceptedBids).getD base.maxAcceptedBids
    minBidPowerMW := (last PartialConfig.minBidPowerMW).getD base.minBidPowerMW
    maxBidPowerMW := (last PartialConfig.maxBidPowerMW).getD base.maxBidPowerMW
    costPerMWThreshold := (last PartialConfig.costPerMWThreshold).getD base.costPerMWThreshold
    priceCompetitivenessFactor :=
      (last PartialConfig.priceCompetitivenessFactor).getD base.priceCompetitivenessFactor
    selectionStrategy := (last PartialConfig.selectionStrategy).getD base.selectionStrategy
    allowPartialBids := (last PartialConfig.allowPartialBids).getD base.allowPartialBids }

/-- The metrics that a call computes under a configuration, if it is an auction that succeeds. -/
def AuctionServiceCall.metrics (config : AuctionConfig) :
    AuctionServiceCall → Option AlgorithmMetrics
  | .processAuction auction redispatchEvent bids =>
      match GridFlex.processAuction ⟨auction, redispatchEvent, bids, config⟩ with
      | .ok output => some output.algorithmMetrics
      | .error _ => none
  | _ => none

/-- The metrics of the auctions that succeeded, each under the settings of its time. -/
def measured (base : AuctionConfig) (past : List AuctionServiceCall) : List AlgorithmMetrics :=
  (List.range past.length).filterMap fun i =>
    past[i]?.bind (AuctionServiceCall.metrics (configured base (past.take i)))

def AuctionServiceCall.answer (base : AuctionConfig) (past : List AuctionServiceCall) :
    AuctionServiceCall → AuctionServiceReply
  | .processAuction auction redispatchEvent bids =>
      .result (Frontend.standardProcessAuction (configured base past) auction redispatchEvent bids)
  | .updateAlgorithmConfig _ => .updated
  | .getAlgorithmMetrics => .metrics (measured base past).getLast?

section

variable (base : AuctionConfig) (past : List AuctionServiceCall)

theorem configured_patch (config : PartialConfig) :
    configured base (past ++ [.updateAlgorithmConfig config]) =
      (configured base past).updateConfig config := by
  have hsetting {α : Type} (setting : PartialConfig → Option α) (d : α) :
      (latest (fun c : AuctionServiceCall => c.patch.bind setting)
          (past ++ [.updateAlgorithmConfig config])).getD d =
        (setting config).getD ((latest (fun c => c.patch.bind setting) past).getD d) := by
    rw [latest_concat]
    exact Option.getD_or
  simp only [configured, hsetting, AuctionConfig.updateConfig]

theorem configured_keep (c : AuctionServiceCall) (h : c.patch = none) :
    configured base (past ++ [c]) = configured base past := by
  simp only [configured, latest_concat, h, Option.bind_none, Option.none_or]

theorem measured_concat (c : AuctionServiceCall) :
    measured base (past ++ [c]) =
      measured base past ++ (c.metrics (configured base past)).toList := by
  unfold measured
  rw [List.length_append, List.length_singleton, List.range_succ, List.filterMap_append]
  have hpast : ∀ i ∈ List.range past.length,
      ((past ++ [c])[i]?.bind fun c' => c'.metrics (configured base ((past ++ [c]).take i))) =
        past[i]?.bind fun c' => c'.metrics (configured base (past.take i)) := by
    intro i hi
    have hlt : i < past.length := List.mem_range.mp hi
    rw [List.getElem?_append_left hlt, List.take_append_of_le_length hlt.le]
  rw [List.filterMap_congr hpast]
  cases hc : c.metrics (configured base past) <;> simp [hc]

end

/-- The object agrees with the reading of its past. -/
structure StandardAuctionService.Follows (base : AuctionConfig) (s : StandardAuctionService)
    (past : List AuctionServiceCall) : Prop where
  algorithm : s.algorithm = configured base past
  lastMetrics : s.lastMetrics = (measured base past).getLast?

namespace StandardAuctionService

variable {base : AuctionConfig} {s : StandardAuctionService} {past : List AuctionServiceCall}

theorem Follows.step (h : s.Follows base past) (c : AuctionServiceCall) :
    (s.step c).Follows base (past ++ [c]) := by
  obtain ⟨halgorithm, hmetrics⟩ := h
  cases c with
  | processAuction auction redispatchEvent bids =>
    have hconfig := configured_keep base past (.processAuction auction redispatchEvent bids) rfl
    have hmeasured := measured_concat base past (.processAuction auction redispatchEvent bids)
    simp only [AuctionServiceCall.metrics, ← halgorithm] at hmeasured
    simp only [StandardAuctionService.step, call, processAuction]
    cases hout : GridFlex.processAuction ⟨auction, redispatchEvent, bids, s.algorithm⟩ with
    | ok output =>
      rw [hout] at hmeasured
      exact ⟨halgorithm.trans hconfig.symm, by simp [hmeasured]⟩
    | error message =>
      rw [hout] at hmeasured
      exact ⟨halgorithm.trans hconfig.symm, by simp [hmeasured, hmetrics]⟩
  | updateAlgorithmConfig config =>
    have hmeasured := measured_concat base past (.updateAlgorithmConfig config)
    refine ⟨?_, by simp [StandardAuctionService.step, call, updateAlgorithmConfig, hmeasured,
      hmetrics, AuctionServiceCall.metrics]⟩
    rw [configured_patch, ← halgorithm]
    rfl
  | getAlgorithmMetrics =>
    have hconfig := configured_keep base past .getAlgorithmMetrics rfl
    have hmeasured := measured_concat base past .getAlgorithmMetrics
    exact ⟨halgorithm.trans hconfig.symm, by simp [StandardAuctionService.step, call, hmeasured,
      hmetrics, AuctionServiceCall.metrics]⟩

end StandardAuctionService

open StandardAuctionService in
theorem follows_run (base : AuctionConfig) (calls : List AuctionServiceCall) :
    (run step ⟨base, none⟩ calls).Follows base calls := by
  induction calls using List.reverseRecOn with
  | nil => exact ⟨rfl, rfl⟩
  | append_singleton calls c ih =>
    rw [run_concat]
    exact ih.step c

theorem StandardAuctionService.Follows.answers {base : AuctionConfig} {s : StandardAuctionService}
    {past : List AuctionServiceCall} (h : s.Follows base past) (c : AuctionServiceCall) :
    (s.call c).2 = c.answer base past := by
  obtain ⟨halgorithm, hmetrics⟩ := h
  cases c with
  | processAuction auction redispatchEvent bids =>
    simp only [call, processAuction, AuctionServiceCall.answer, Frontend.standardProcessAuction,
      ← halgorithm]
    cases GridFlex.processAuction ⟨auction, redispatchEvent, bids, s.algorithm⟩ <;> rfl
  | updateAlgorithmConfig config => rfl
  | getAlgorithmMetrics => exact congrArg AuctionServiceReply.metrics hmetrics

open StandardAuctionService in
/-- After any calls, a service runs its auctions with each setting as it was last given, hands out
the metrics of the last auction that succeeded, and a custom one is the algorithm of the same
name behind a service. -/
theorem service_answers (calls : List AuctionServiceCall) (c : AuctionServiceCall) :
    (∀ algorithmType : AlgorithmType, ((run step (create algorithmType) calls).call c).2 =
        c.answer (createAlgorithm algorithmType) calls) ∧
      ∀ config : PartialConfig,
        ((run step (AuctionServiceFactory.createCustom config) calls).call c).2 =
          c.answer (AuctionAlgorithmFactory.createCustom config) calls := by
  constructor
  · intro algorithmType
    exact (follows_run (createAlgorithm algorithmType) calls).answers c
  · intro config
    exact (follows_run (AuctionAlgorithmFactory.createCustom config) calls).answers c

end GridFlex
