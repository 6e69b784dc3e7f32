import GridFlex.Auction.Entries
import GridFlex.Frontend.Causality
import GridFlex.Market.Log

/-! The event log against the model: the service makes up the event and the bids that it
publishes, so the two tell the same story only for the demo's own numbers. -/
namespace GridFlex
open Transition

/-- The broadcast event shows the power and the cost of `event`. -/
def EventPayload.Carries (p : EventPayload) (event : RedispatchEvent) : Prop :=
  match p with
  | .auctionBroadcasted auction redispatchEvent =>
      (redispatchEvent.powerMW = event.powerMW ∧ redispatchEvent.costPerMW = event.costPerMW) ∧
        auction.powerMW = event.powerMW ∧ auction.costPerMW = event.costPerMW
  | _ => True

instance (p : EventPayload) (event : RedispatchEvent) : Decidable (p.Carries event) :=
  match p with
  | .auctionBroadcasted _ _ => inferInstanceAs (Decidable ((_ ∧ _) ∧ _ ∧ _))
  | .redispatchCreated _ | .bidSubmitted _ _ | .auctionTriggered _ _ | .auctionResolved _ _ _
  | .auctionReset _ => .isTrue trivial

/-- The power and the cost that the service writes into all that it publishes. -/
def RedispatchEvent.IsMock (event : RedispatchEvent) : Prop :=
  event.powerMW = 100 ∧ event.costPerMW = 50

instance : DecidablePred RedispatchEvent.IsMock := fun event =>
  inferInstanceAs (Decidable (event.powerMW = 100 ∧ event.costPerMW = 50))

/-- The powers and prices are those that the participants start with. -/
def Unedited (participants : List Participant) : Prop :=
  participants.map (fun p => (p.powerMW, p.pricePerMW)) =
    initialParticipants.map fun p => (p.powerMW, p.pricePerMW)

instance : DecidablePred Unedited := fun participants =>
  inferInstanceAs (Decidable (participants.map (fun p => (p.powerMW, p.pricePerMW)) = _))

instance (result result' : AuctionResult) : Decidable (SameOutcome result result') :=
  decidable_of_iff (result'.acceptedPowerMW = result.acceptedPowerMW ∧
      result'.remainingPowerMW = result.remainingPowerMW ∧
      result'.participantPayoutEUR = result.participantPayoutEUR ∧
      result'.bidStatus = result.bidStatus ∧
      result'.participantResolutions = result.participantResolutions)
    ⟨fun ⟨h₁, h₂, h₃, h₄, h₅⟩ => ⟨h₁, h₂, h₃, h₄, h₅⟩,
      fun ⟨h₁, h₂, h₃, h₄, h₅⟩ => ⟨h₁, h₂, h₃, h₄, h₅⟩⟩

namespace Market

/-- The broadcast of the model's auction is in the log, and shows the model's redispatch event. -/
def BroadcastTold (f : Frontend) : Prop :=
  ∀ a ∈ f.model.auction, (∃ e ∈ f.events, a.id ∈ e.payload.opens?) ∧
    ∀ e ∈ f.events, a.id ∈ e.payload.opens? → e.payload.Carries f.model.redispatchEvent

/-- The results that an operation from `m` to `m'` has published. -/
def published (m m' : Market) : List AuctionResult :=
  (m'.frontend.events.drop m.frontend.events.length).filterMap fun e => e.payload.result?

/-- A trigger that completes publishes one result, and it reports what the stored one reports. -/
def ResultTold (ids : ℕ → IdSource) (hardhat : Hardhat) (m : Market) (i : Invocation) : Prop :=
  ∀ _now ∈ i.operation.trigger?,
    (m.outcome ids hardhat i).awaited.any Suspended.isResolving = true →
      (m.published (m.perform ids hardhat i)).length = 1 ∧
        ∃ stored ∈ (m.perform ids hardhat i).frontend.model.auctionResult,
          ∀ result ∈ m.published (m.perform ids hardhat i), SameOutcome stored result

instance (ids : ℕ → IdSource) (hardhat : Hardhat) (m : Market) (i : Invocation) :
    Decidable (m.ResultTold ids hardhat i) :=
  inferInstanceAs (Decidable (∀ _now ∈ i.operation.trigger?,
    (m.outcome ids hardhat i).awaited.any Suspended.isResolving = true →
      (m.published (m.perform ids hardhat i)).length = 1 ∧
        ∃ stored ∈ (m.perform ids hardhat i).frontend.model.auctionResult,
          ∀ result ∈ m.published (m.perform ids hardhat i), SameOutcome stored result))

/-- After the operation, the log tells of it what the model shows. -/
def TellsStory (ids : ℕ → IdSource) (hardhat : Hardhat) (m : Market) (i : Invocation) : Prop :=
  BroadcastTold (m.perform ids hardhat i).frontend ∧ m.ResultTold ids hardhat i

/-- A broadcast that goes through is of the event that the service makes up, and a trigger that
goes through finds the participants as they were at the start. -/
def KeepsStory (hardhat : Hardhat) (m : Market) (i : Invocation) : Prop :=
  match i.operation with
  | .broadcastAuction =>
      hardhat.wallet = m.chain.collector.owner → (∃ tx, i.network 0 = .confirms tx) →
        m.frontend.model.redispatchEvent.IsMock
  | .triggerAuction _ =>
      ∀ auction, m.Guard auction → m.Open hardhat → (∃ tx, i.network 0 = .confirms tx) →
        (∃ tx, i.network 1 = .confirms tx) → Unedited m.frontend.model.participants
  | _ => True

end Market

theorem published_append {m m' : Market} {new : List GridFlexibilityEvent}
    (h : m'.frontend.events = m.frontend.events ++ new) :
    m.published m' =
      (new.map GridFlexibilityEvent.payload).filterMap EventPayload.result? := by
  rw [Market.published, h, List.drop_left, List.filterMap_map]
  rfl

def Participant.terms (p : Participant) : String × ℚ × ℚ := (p.id, p.powerMW, p.pricePerMW)

def ParticipantResolution.terms (r : ParticipantResolution) : String × ℚ × ℚ :=
  (r.participantId, r.bidPowerMW, r.bidPricePerMW)

theorem getSubmittedBids_terms (auctionId : String) :
    (Frontend.getSubmittedBids auctionId).map Bid.terms =
      initialParticipants.map Participant.terms := rfl

/-- The bids of a snapshot have the terms of its participants. -/
theorem Snapshot.bids_terms (state : Snapshot) :
    state.bids.map Bid.terms = state.participants.map Participant.terms := by
  apply List.ext_getElem
  · simp [Snapshot.bids]
  · intro n h₁ h₂
    simp [Snapshot.bids, Bid.terms, Participant.terms]

/-- With the identities fixed, unedited participants are the initial ones in all their terms. -/
theorem Standing.unedited_iff {redispatchEvent : RedispatchEvent} {f : Frontend}
    (h : Standing redispatchEvent f) : Unedited f.model.participants ↔
      f.model.participants.map Participant.terms = initialParticipants.map Participant.terms := by
  constructor
  · intro hterms
    have hzip (ps : List Participant) : ps.map Participant.terms =
        (ps.map Participant.id).zip (ps.map fun p => (p.powerMW, p.pricePerMW)) := by
      rw [List.zip_map']
      rfl
    rw [hzip, hzip, h.participants, hterms]
  · intro hall
    have hsnd := congrArg (List.map Prod.snd) hall
    rw [List.map_map, List.map_map] at hsnd
    exact hsnd

/-- The resolutions of a result show the powers and prices of all bids. -/
theorem resolutions_terms {input : AuctionInput} {output : AuctionOutput}
    (hout : processAuction input = .ok output) :
    output.result.participantResolutions.map ParticipantResolution.terms =
      input.bids.map Bid.terms := by
  rw [(processAuction_inv hout).2.2]
  simp only [calculateAuctionResult, generateParticipantResolutions, List.map_map]
  rfl

variable {ids : ℕ → IdSource} {hardhat : Hardhat} {m m' : Market} {i : Invocation}
  {redispatchEvent : RedispatchEvent}

/-- For the event that the service makes up, the controller and the service settle alike exactly
when the participants are unedited. -/
theorem sameOutcome_iff_unedited (hs : Standing redispatchEvent m.frontend)
    (hmock : m.frontend.model.redispatchEvent.IsMock) {auction : Auction} {now : ℕ → ℕ}
    {output output' : AuctionOutput}
    (hout : processAuction (m.frontend.snapshot auction now).auctionInput = .ok output)
    (hout' : processAuction ⟨Frontend.serviceGetAuction auction.id,
      Frontend.serviceGetRedispatchEvent "redispatch-1", Frontend.getSubmittedBids auction.id,
      DEFAULT_AUCTION_CONFIG⟩ = .ok output') :
    SameOutcome output.result output'.result ↔ Unedited m.frontend.model.participants := by
  rw [hs.unedited_iff]
  constructor
  · intro hsame
    have hterms := congrArg (List.map ParticipantResolution.terms) hsame.participantResolutions
    rw [resolutions_terms hout, resolutions_terms hout', getSubmittedBids_terms] at hterms
    rw [hterms]
    exact ((m.frontend.snapshot auction now).bids_terms).symm
  · intro hterms
    have hbids : List.Forall₂ Bid.SameTerms (m.frontend.snapshot auction now).bids
        (Frontend.getSubmittedBids auction.id) := by
      apply sameTerms_of_map
      rw [Snapshot.bids_terms, getSubmittedBids_terms]
      exact hterms.symm
    have hconfig : (m.frontend.snapshot auction now).auctionInput.config =
        DEFAULT_AUCTION_CONFIG := by
      simp only [Snapshot.auctionInput, Frontend.snapshot, hmock.2]
      rfl
    have hn' : ((Frontend.getSubmittedBids auction.id).map Bid.id).Nodup := by
      show ["bid-1", "bid-2", "bid-3", "bid-4"].Nodup
      decide
    rw [← hconfig] at hout'
    exact sameOutcome_of_sameTerms hbids (hs.bids_nodup auction now) hn' hmock.1.symm hout hout'

/-- One trigger on a page whose auctions are all of the event that the service makes up. -/
theorem resultTold_iff (hs : Standing redispatchEvent m.frontend)
    (hmock : ∀ auction, m.frontend.model.auction = some auction →
      m.frontend.model.redispatchEvent.IsMock) (now : ℕ → ℕ) (network : ℕ → Fate) :
    m.ResultTold ids hardhat ⟨.triggerAuction now, network⟩ ↔
      m.KeepsStory hardhat ⟨.triggerAuction now, network⟩ := by
  have ht : Triggered ids hardhat m now network
      (m.perform ids hardhat ⟨.triggerAuction now, network⟩).frontend
      (m.perform ids hardhat ⟨.triggerAuction now, network⟩).chain
      (m.outcome ids hardhat ⟨.triggerAuction now, network⟩).awaited := m.triggered now network
  unfold Market.ResultTold
  generalize m.perform ids hardhat ⟨.triggerAuction now, network⟩ = m' at ht ⊢
  obtain ⟨f, chain⟩ := m'
  generalize (m.outcome ids hardhat _).awaited = awaited at ht ⊢
  simp only [Market.KeepsStory, Operation.trigger?, Option.mem_def, Option.some.injEq,
    forall_eq']
  cases ht with
  | ignored hnone =>
    refine iff_of_true (by simp) ?_
    intro auction hguard
    exact absurd hguard (hnone auction)
  | notEnded auction hguard hshut =>
    refine iff_of_true (by simp [Suspended.isResolving]) ?_
    rintro auction' hguard' hopen ⟨tx, htx⟩
    rcases hshut with hshut | hfate
    · exact absurd hopen hshut
    · rw [hfate] at htx
      cases htx
  | unconfirmed auction hguard hopen hfate =>
    refine iff_of_true (by simp [Suspended.isResolving]) ?_
    rintro auction' hguard' hopen' ⟨tx, htx⟩
    rw [hfate] at htx
    cases htx
  | unread auction tx hguard hopen hfate hread =>
    refine iff_of_true (by simp [Suspended.isResolving]) ?_
    rintro auction' hguard' hopen' - ⟨tx', htx'⟩
    exact absurd htx' (hread tx')
  | invalid auction tx tx' hguard hopen hfate hread hvalid =>
    have hpower : 0 < m.frontend.model.redispatchEvent.powerMW := by
      rw [(hmock auction hguard.auction).1]
      norm_num
    exact absurd ((Market.snapshot_valid_iff hs auction now).mpr hpower) hvalid
  | resolved auction tx tx' output f hguard hopen hfate hread hout hf =>
    have hstored : f.model.auctionResult = some output.result :=
      (Triggered.resolved_quiet hf).auctionResult
    obtain ⟨output', served, bid, e, hout', -, hpayload, hevents⟩ :=
      Triggered.resolved_publishes hf
    have hpublished (c : ChainState) : m.published ⟨f, c⟩ = [output'.result] := by
      rw [@published_append m ⟨f, c⟩ [e] hevents, List.map_singleton, hpayload]
      rfl
    have hsame : SameOutcome output.result output'.result ↔
        Unedited m.frontend.model.participants :=
      sameOutcome_iff_unedited hs (hmock auction hguard.auction) hout hout'
    rw [hpublished]
    constructor
    · intro htold _ _ _ _ _
      obtain ⟨-, stored, hst, hall⟩ := htold rfl
      cases hstored.symm.trans hst
      exact hsame.mp (hall output'.result (List.mem_singleton_self _))
    · intro hunedited _
      refine ⟨rfl, output.result, hstored, ?_⟩
      intro result hr
      rw [List.mem_singleton.mp hr]
      exact hsame.mpr (hunedited auction hguard hopen ⟨tx, hfate⟩ ⟨tx', hread⟩)

/-- The auction of the page has been broadcast, with the numbers that the service makes up. -/
structure Broadcasting (m : Market) : Prop where
  opened : ∀ a ∈ m.frontend.model.auction, Opened m.frontend.events a.id
  mock : ∀ e ∈ m.frontend.events, ∀ id ∈ e.payload.opens?, ∀ event,
    e.payload.Carries event ↔ event.IsMock

theorem Broadcasting.told_iff (h : Broadcasting m) : Market.BroadcastTold m.frontend ↔
    ∀ a, m.frontend.model.auction = some a → m.frontend.model.redispatchEvent.IsMock := by
  constructor
  · intro htold a ha
    obtain ⟨⟨e, he, hid⟩, hcarries⟩ := htold a ha
    exact (h.mock e he a.id hid _).mp (hcarries e he hid)
  · intro hmock a ha
    refine ⟨h.opened a ha, ?_⟩
    intro e he hid
    exact (h.mock e he a.id hid _).mpr (hmock a ha)

/-- New events that broadcast nothing. -/
theorem Broadcasting.extend (h : Broadcasting m) {new : List GridFlexibilityEvent}
    (hevents : m'.frontend.events = m.frontend.events ++ new)
    (hnew : ∀ e ∈ new, e.payload.opens? = none)
    (hauction : ∀ a ∈ m'.frontend.model.auction, ∃ b ∈ m.frontend.model.auction, a.id = b.id) :
    Broadcasting m' := by
  constructor
  · intro a ha
    obtain ⟨b, hb, hid⟩ := hauction a ha
    rw [hid, hevents]
    exact (h.opened b hb).mono (List.subset_append_left _ _)
  · intro e he id hid
    rw [hevents] at he
    rcases List.mem_append.mp he with he | he
    · exact h.mock e he id hid
    · rw [hnew e he] at hid
      cases hid

theorem Broadcasting.operated (h : Broadcasting m) (ho : Operated ids hardhat m i m') :
    Broadcasting m' := by
  cases ho with
  | bids hauction hchain hcounter hsubmits =>
    obtain ⟨new, hevents, hnew, -⟩ := hsubmits.new
    apply h.extend hevents
    · intro e he
      obtain ⟨draft, -, hsub⟩ := hnew e he
      exact (submission_spec hsub).2.1
    · exact fun a ha => ⟨a, hauction ▸ ha, rfl⟩
  | refused hoffers hauction hchain hcounter hevents =>
    apply h.extend (hevents.trans (List.append_nil _).symm)
    · simp
    · exact fun a ha => ⟨a, hauction ▸ ha, rfl⟩
  | broadcasts auction tx e hop howner hfate hid hactive hterms hauction hcounter hpayload
      hevents =>
    constructor
    · intro a ha
      cases hauction.symm.trans ha
      refine ⟨e, ?_, by simp [hpayload, EventPayload.opens?]⟩
      rw [hevents]
      exact List.mem_append_right _ (List.mem_singleton_self e)
    · intro e' he' id hid' event
      rw [hevents] at he'
      rcases List.mem_append.mp he' with he' | he'
      · exact h.mock e' he' id hid' event
      · rw [List.mem_singleton.mp he', hpayload]
        simp only [EventPayload.Carries, RedispatchEvent.IsMock, hterms, and_self, eq_comm]
  | resolves auction e result served bid hoffers hguard hopen hauction hchain hcounter hid hpayload
      hevents =>
    apply h.extend hevents
    · simp [hpayload, EventPayload.opens?]
    · intro a ha
      cases hauction.symm.trans ha
      exact ⟨auction, hguard.auction, rfl⟩
  | resets e reason hoffers hauction hcounter hpayload hevents =>
    apply h.extend hevents
    · simp [hpayload, EventPayload.opens?]
    · simp [hauction]

/-- On a page whose auctions are of the event that the service makes up. -/
theorem tellsStory_iff (hs : Standing redispatchEvent m.frontend) (h : Broadcasting m)
    (hmock : ∀ a, m.frontend.model.auction = some a → m.frontend.model.redispatchEvent.IsMock)
    (i : Invocation) : m.TellsStory ids hardhat i ↔ m.KeepsStory hardhat i := by
  have ho : Operated ids hardhat m i (m.perform ids hardhat i) := m.performed ids hardhat i
  have hevent : (m.perform ids hardhat i).frontend.model.redispatchEvent =
      m.frontend.model.redispatchEvent :=
    (hs.perform i).redispatchEvent.trans hs.redispatchEvent.symm
  have hbroadcast : Market.BroadcastTold (m.perform ids hardhat i).frontend ↔
      ∀ a, (m.perform ids hardhat i).frontend.model.auction = some a →
        m.frontend.model.redispatchEvent.IsMock := by
    rw [(h.operated ho).told_iff, hevent]
  have hkept (hop : i.operation ≠ .broadcastAuction) :
      Market.BroadcastTold (m.perform ids hardhat i).frontend := by
    rw [hbroadcast]
    intro a ha
    rcases ho.auction ha with ⟨hb, -⟩ | ⟨b, hb⟩
    · exact absurd hb hop
    · exact hmock b hb
  unfold Market.TellsStory
  obtain ⟨op, network⟩ := i
  cases op with
  | broadcastAuction =>
    have hresult : m.ResultTold ids hardhat ⟨.broadcastAuction, network⟩ := by
      rintro now ⟨⟩
    rw [and_iff_left hresult, hbroadcast]
    constructor
    · rintro hall howner ⟨tx, hfate⟩
      have hstart := FHEDataCollector.startCollection_ok.mpr ⟨howner, rfl⟩
      rw [m.perform_broadcastAuction ids hstart hfate] at hall
      exact hall _ rfl
    · intro hkeeps a ha
      rcases ho.auction ha with ⟨-, howner, hfate⟩ | ⟨b, hb⟩
      · exact hkeeps howner hfate
      · exact hmock b hb
  | triggerAuction now =>
    rw [and_iff_right (hkept Operation.noConfusion)]
    exact resultTold_iff hs hmock now network
  | placeBid | resetAuction | broadcastAllBids | updateBidPower | updateBidPrice
  | updateParticipant | clearNotification =>
    refine iff_of_true ⟨hkept Operation.noConfusion, ?_⟩ trivial
    rintro now ⟨⟩

/-- In every sequential run, whatever the node's faults, the log tells after each operation what
the model shows if and only if every broadcast that goes through is of the event that the service
makes up and every trigger that goes through finds the participants unedited. -/
theorem same_story_iff (ids : ℕ → IdSource) (hardhat : Hardhat) (deployer : Address)
    (grants : List (Euint32 × Address)) (redispatchEvent : RedispatchEvent)
    (invocations : List Invocation) :
    let m₀ := Market.initial deployer grants redispatchEvent
    Along (Market.perform ids hardhat) (Market.TellsStory ids hardhat) m₀ invocations ↔
      Along (Market.perform ids hardhat) (Market.KeepsStory hardhat) m₀ invocations := by
  intro m₀
  apply along_congr (I := fun m : Market => Standing redispatchEvent m.frontend ∧ Broadcasting m ∧
    ∀ a, m.frontend.model.auction = some a → m.frontend.model.redispatchEvent.IsMock)
  · rintro m i ⟨hs, h, -⟩ ⟨htold, -⟩
    have h' : Broadcasting (m.perform ids hardhat i) := h.operated (m.performed ids hardhat i)
    exact ⟨hs.perform i, h', h'.told_iff.mp htold⟩
  · rintro m i ⟨hs, h, hmock⟩
    exact tellsStory_iff hs h hmock i
  · refine ⟨⟨rfl, rfl⟩, ⟨by rintro _ ⟨⟩, ?_⟩, by rintro _ ⟨⟩⟩
    intro e he
    cases he

/-- The first participant is edited: the page stores 90 accepted MW, and the log reports 80. -/
theorem editedRun_story_differs :
    ¬Along (Market.perform (fun _ => .server) ⟨0, fun _ => true⟩)
      (Market.TellsStory (fun _ => .server) ⟨0, fun _ => true⟩)
      (.initial 0 [] mockRedispatchEvent)
      ([order .broadcastAuction, order .broadcastAllBids,
        order (.updateParticipant "participant-1" 60 10),
        order (.triggerAuction fun _ => 0)].map Order.invocation) := by
  intro hall
  have htold := (hall ([order .broadcastAuction, order .broadcastAllBids,
    order (.updateParticipant "participant-1" 60 10)].map Order.invocation) _ [] rfl).2
  revert htold
  decide +kernel

end GridFlex
