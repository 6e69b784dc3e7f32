import GridFlex.Frontend.Lifecycle

/-! `bidPlaced` is set at the end of calls that took the auction at their start. It stands for
a published bid of the current auction as long as no reset and no new broadcast comes between. -/
namespace GridFlex
open Transition

/-- What the flag promises: there is an auction, and a bid for it has been published. -/
def BidPlacedSound (f : Frontend) : Prop :=
  f.model.bidPlaced = true → ∃ a, f.model.auction = some a ∧ f.Submitted a.id

/-- A call that sets the flag finds that no reset and no broadcast has been stored since its
start. -/
def FlagTimely (s : System) (a : Action) : Prop :=
  ∀ call ∈ s.callOf a, ∀ reply ∈ a.reply, call.suspended.setsFlag reply = true →
    call.startedAt = s.replacements

instance : DecidableRel FlagTimely := fun s a =>
  inferInstanceAs (Decidable (∀ call ∈ s.callOf a, ∀ reply ∈ a.reply,
    call.suspended.setsFlag reply = true → call.startedAt = s.replacements))

/-- What is known of a suspended call that submits bids for `auctionId`. -/
structure BidderOk (s : System) (startedAt : ℕ) (auctionId : String) (announced : Bool) : Prop where
  startedAt_le : startedAt ≤ s.replacements
  submitted : announced = true → s.frontend.Submitted auctionId
  /-- A stale trigger may have put its own auction in the place of the bidder's. -/
  current : startedAt = s.replacements → ∃ a, s.frontend.model.auction = some a ∧
    (a.id = auctionId ∨ s.frontend.Submitted a.id)

structure FlagInvariant (s : System) : Prop where
  sound : BidPlacedSound s.frontend
  triggers : ∀ state ∈ s.snapshots, s.frontend.Submitted state.auction.id
  bidders : ∀ c ∈ s.calls, ∀ auctionId announced, c.suspended.role = .bidder auctionId announced →
    BidderOk s c.startedAt auctionId announced

variable {ids : ℕ → IdSource} {s s' : System} {a : Action}

namespace Move

theorem submitted (m : Move ids s a s') {id : String} (h : s.frontend.Submitted id) :
    s'.frontend.Submitted id :=
  h.mono m.segment.events_grow

/-- Without a replacement the auction stays, or a trigger's auction, which has bids, follows. -/
theorem current (m : Move ids s a s') (h : FlagInvariant s) (hr : m.replaced = false)
    {auction : Auction} (hauction : s.frontend.model.auction = some auction) :
    ∃ a', s'.frontend.model.auction = some a' ∧
      (a'.id = auction.id ∨ s'.frontend.Submitted a'.id) := by
  rcases m.segment.writes with ⟨ha, -, -⟩ | ⟨auction', -, -, hrep⟩ |
    ⟨state, output, hc, -, -, hf, -⟩ | ⟨-, -, hrep⟩
  · exact ⟨auction, ha.trans hauction, Or.inl rfl⟩
  · simp [hr] at hrep
  · have hstate : state ∈ s.snapshots := m.mem_collect hc rfl
    have hsub : s.frontend.Submitted state.auction.id := h.triggers state hstate
    refine ⟨{ state.auction with status := .completed }, by rw [hf]; rfl, Or.inr ?_⟩
    exact m.submitted hsub
  · simp [hr] at hrep

theorem bidPlacedSound (m : Move ids s a s') (h : FlagInvariant s) (ht : FlagTimely s a) :
    BidPlacedSound s'.frontend := by
  intro hp
  rcases m.segment.placed hp with ⟨hp', hr⟩ | ⟨c, auctionId, r, hc, hrole, hreply, hset, hauction⟩
  · obtain ⟨auction, ha, hsub⟩ := h.sound hp'
    obtain ⟨a', ha', hid | hsub'⟩ := m.current h hr ha
    · exact ⟨a', ha', hid ▸ m.submitted hsub⟩
    · exact ⟨a', ha', hsub'⟩
  · obtain ⟨call, hcall, rfl⟩ := Option.map_eq_some_iff.mp hc
    have hst : call.startedAt = s.replacements :=
      ht call (m.callOf_eq.trans hcall) r hreply hset
    have hok := h.bidders call (m.call_mem hcall) auctionId true hrole
    obtain ⟨auction, ha, hid | hsub⟩ := hok.current hst
    · exact ⟨auction, hauction.trans ha, hid ▸ m.submitted (hok.submitted rfl)⟩
    · exact ⟨auction, hauction.trans ha, m.submitted hsub⟩

theorem triggers (m : Move ids s a s') (h : FlagInvariant s) :
    ∀ state ∈ s'.snapshots, s'.frontend.Submitted state.auction.id := by
  intro state hstate
  apply m.submitted
  rcases m.mem_collect' hstate with ⟨c', hc', hs⟩ | hold
  · rcases m.segment.snapshot hc' hs with ⟨-, hauction, hplaced⟩ | ⟨c, hc, hs₀⟩
    · obtain ⟨auction, ha, hsub⟩ := h.sound hplaced
      cases hauction.symm.trans ha
      exact hsub
    · exact h.triggers state (m.mem_collect hc hs₀)
  · exact h.triggers state hold

/-- A bidder that was in flight stays in order. -/
theorem bidderOk (m : Move ids s a s') (h : FlagInvariant s) {startedAt : ℕ} {auctionId : String}
    {before announced : Bool} (hok : BidderOk s startedAt auctionId before)
    (hsub : announced = true → before = true ∨ s'.frontend.Submitted auctionId) :
    BidderOk s' startedAt auctionId announced := by
  have hrep := m.replacements_eq
  have hle := hok.startedAt_le
  refine ⟨by omega, ?_, ?_⟩
  · intro ha
    rcases hsub ha with hb | hb
    · exact m.submitted (hok.submitted hb)
    · exact hb
  · intro hst
    obtain ⟨hr, hst'⟩ := m.not_replaced hle hst
    obtain ⟨auction, ha, hid⟩ := hok.current hst'
    obtain ⟨a', ha', hid'⟩ := m.current h hr ha
    refine ⟨a', ha', ?_⟩
    rcases hid' with hid' | hid'
    · rw [hid']
      exact hid.imp_right m.submitted
    · exact Or.inr hid'

theorem bidders (m : Move ids s a s') (h : FlagInvariant s) :
    ∀ c ∈ s'.calls, ∀ auctionId announced, c.suspended.role = .bidder auctionId announced →
      BidderOk s' c.startedAt auctionId announced := by
  intro c' hc' auctionId announced hrole
  rcases m.call_origin hc' with hold | ⟨hn, hcall, hst⟩ | ⟨c, hc, hcall, hn, hst⟩
  · exact m.bidderOk h (h.bidders c' hold auctionId announced hrole) Or.inl
  · rcases m.segment.bidder hn hrole with ⟨-, ⟨auction, ha, rfl⟩, hsub⟩ | ⟨c, before, hc, -, -⟩
    · have hrep := m.replacements_eq
      refine ⟨by omega, hsub, ?_⟩
      intro hst'
      obtain ⟨hr, -⟩ := m.not_replaced hst.le hst'
      exact m.current h hr ha
    · simp [hcall] at hc
  · rw [hst]
    rcases m.segment.bidder hn hrole with ⟨hnone, -, -⟩ | ⟨c₀, before, hc₀, hrole₀, hsub⟩
    · simp [hcall] at hnone
    · have he : c.suspended = c₀ := by simpa [hcall] using hc₀
      exact m.bidderOk h (h.bidders c hc auctionId before (he ▸ hrole₀)) hsub

end Move

theorem initial_flagInvariant (redispatchEvent : RedispatchEvent) :
    FlagInvariant (.initial redispatchEvent) := by
  refine ⟨?_, ?_, ?_⟩
  · intro hp
    cases hp
  · intro state hs
    cases hs
  · intro c hc
    cases hc

theorem FlagInvariant.step (h : FlagInvariant s) (ht : FlagTimely s a) :
    FlagInvariant (s.step ids a) := by
  rcases s.step_cases ids a with he | ⟨⟨m⟩⟩
  · rwa [he]
  · exact ⟨m.bidPlacedSound h ht, m.triggers h, m.bidders h⟩

/-- In a run whose calls set the flag only while nothing has been reset or broadcast since they
started, the flag is right at every boundary. -/
theorem bidPlaced_sound (ids : ℕ → IdSource) (redispatchEvent : RedispatchEvent)
    (as : List Action) (ht : Along (System.step ids) FlagTimely (.initial redispatchEvent) as) :
    BidPlacedSound (run (System.step ids) (.initial redispatchEvent) as).frontend := by
  have h : FlagInvariant (run (System.step ids) (.initial redispatchEvent) as) :=
    run_invariant_along (I := FlagInvariant) (fun _ _ hi hp => hi.step hp)
      (initial_flagInvariant redispatchEvent) ht
  exact h.sound

/-- One participant bids in a broadcast auction, and nothing interferes. -/
def placedBid : List Action :=
  [.start .broadcastAuction, .resume 0 (.transaction mockTransaction), .resume 0 .settled,
    .start (.updateBidPower 50), .start (.updateBidPrice 10), .start .placeBid,
    .resume 0 .settled]

theorem placedBid_sound :
    let s := run (System.step fun _ => .server) (.initial mockRedispatchEvent) placedBid
    s.frontend.model.bidPlaced = true ∧ BidPlacedSound s.frontend :=
  ⟨by decide +kernel, bidPlaced_sound _ _ placedBid (by decide +kernel)⟩

/-- A reset completes while the data of the only valid bid is being submitted. -/
def resetDuringBroadcast : List Action :=
  [.start .broadcastAuction, .resume 0 (.transaction mockTransaction), .resume 0 .settled,
    .start (.updateParticipant "participant-2" 0 20),
    .start (.updateParticipant "participant-3" 0 30),
    .start (.updateParticipant "participant-4" 0 80), .start .broadcastAllBids,
    .start .resetAuction, .resume 1 .settled, .resume 0 (.transaction mockTransaction),
    .resume 0 .settled]

/-- The broadcast then sets the flag of a page that has no auction. -/
theorem resetDuringBroadcast_unsound :
    ¬BidPlacedSound (run (System.step fun _ => .server) (.initial mockRedispatchEvent)
      resetDuringBroadcast).frontend := by
  intro h
  obtain ⟨a, ha, -⟩ := h (by decide +kernel)
  cases ha

end GridFlex
