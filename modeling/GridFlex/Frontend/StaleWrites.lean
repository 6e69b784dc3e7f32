import GridFlex.Frontend.Lifecycle

/-! `triggerAuction` writes from the state it took before two awaits. Its writes hit the auction
it was started for exactly as long as no reset and no new broadcast has been stored since. -/
namespace GridFlex
open Transition

/-- The id of `state.auction` in a call of `triggerAuction`. -/
def Suspended.triggerAuctionId? : Suspended → Option String
  | .endingCollection state | .collectingData state => some state.auction.id
  | .resolvingAuction auctionId _ | .auctionResolved auctionId => some auctionId
  | _ => none

/-- A trigger changes the auction or its result only while the model holds the auction that
the trigger was started for. -/
def WritesOwnAuction (ids : ℕ → IdSource) (s : System) (a : Action) : Prop :=
  ∀ call ∈ s.callOf a, ∀ id ∈ call.suspended.triggerAuctionId?,
    (s.step ids a).frontend.model.auction ≠ s.frontend.model.auction ∨
      (s.step ids a).frontend.model.auctionResult ≠ s.frontend.model.auctionResult →
    s.frontend.model.auction.map Auction.id = some id

/-- A trigger whose data arrives, with an input that passes validation, finds that no reset and
no broadcast has been stored since its start. -/
def Undisturbed (s : System) (a : Action) : Prop :=
  ∀ call ∈ s.callOf a, ∀ state prices quantities, call.suspended = .collectingData state →
    a.reply = some (.collected prices quantities) →
    validateInput state.auctionInput = .ok () → call.startedAt = s.replacements

/-- The count of replacements tells whether the auction of a trigger is still the model's. -/
def Windows (s : System) : Prop :=
  ∀ c ∈ s.calls, ∀ state, c.suspended.role.snapshot = some state →
    c.startedAt ≤ s.replacements ∧ (c.startedAt = s.replacements ↔
      s.frontend.model.auction.map Auction.id = some state.auction.id)

variable {ids : ℕ → IdSource} {s s' : System} {a : Action}

namespace Move

/-- A trigger in flight after a move has just taken the model's auction or was in flight. -/
theorem trigger_origin (m : Move ids s a s') {c' : Call} (hc' : c' ∈ s'.calls) {state : Snapshot}
    (hs : c'.suspended.role.snapshot = some state) :
    (m.call = none ∧ c'.startedAt = s.replacements ∧
      s.frontend.model.auction = some state.auction) ∨
    ∃ c ∈ s.calls, c.suspended.role.snapshot = some state ∧ c'.startedAt = c.startedAt := by
  rcases m.call_origin hc' with h | ⟨hn, hcall, hst⟩ | ⟨c, hc, hcall, hn, hst⟩
  · exact Or.inr ⟨c', h, hs, rfl⟩
  · rcases m.segment.snapshot hn hs with ⟨-, ha, -⟩ | ⟨c, hc, -⟩
    · exact Or.inl ⟨hcall, hst, ha⟩
    · simp [hcall] at hc
  · rcases m.segment.snapshot hn hs with ⟨hnone, -⟩ | ⟨c₀, hc₀, hs₀⟩
    · simp [hcall] at hnone
    · have he : c.suspended = c₀ := by simpa [hcall] using hc₀
      exact Or.inr ⟨c, hc, he ▸ hs₀, hst⟩

/-- The moves that store a trigger's result leave the id of the auction as it is. -/
theorem resolve_id (m : Move ids s a s') (h : Windows s) (hu : Undisturbed s a) {state : Snapshot}
    {output : AuctionOutput} (hc : m.call.map Call.suspended = some (.collectingData state))
    (hreply : ∃ prices quantities, a.reply = some (.collected prices quantities))
    (hout : processAuction state.auctionInput = .ok output) :
    s.frontend.model.auction.map Auction.id = some state.auction.id := by
  obtain ⟨call, hcall, hsus⟩ := Option.map_eq_some_iff.mp hc
  obtain ⟨prices, quantities, hrep⟩ := hreply
  have hst : call.startedAt = s.replacements :=
    hu call (m.callOf_eq.trans hcall) state prices quantities hsus hrep (processAuction_inv hout).1
  have hw := h call (m.call_mem hcall) state (by rw [hsus]; rfl)
  exact hw.2.mp hst

theorem windows (m : Move ids s a s') (hfresh : FreshIds ids s) (h : Windows s)
    (hu : Undisturbed s a) : Windows s' := by
  intro c' hc' state hs
  have horigin := m.trigger_origin hc' hs
  rcases m.segment.writes with ⟨ha, -, hr⟩ | ⟨auction, hc, hf, hr⟩ |
    ⟨state', output, hc, hreply, hout, hf, hr⟩ | ⟨hc, hf, hr⟩
  · have hrep : s'.replacements = s.replacements := by simp [m.replacements_eq, hr]
    rw [hrep, ha]
    rcases horigin with ⟨-, hst, hauction⟩ | ⟨c, hm, hcs, hst⟩
    · rw [hst, hauction]
      exact ⟨le_rfl, iff_of_true rfl rfl⟩
    · rw [hst]
      exact h c hm state hcs
  · have hrep : s'.replacements = s.replacements + 1 := by simp [m.replacements_eq, hr]
    have hm : auction ∈ s.pending := m.mem_collect hc rfl
    rcases horigin with ⟨hnone, -, -⟩ | ⟨c, hcm, hcs, hst⟩
    · simp [hnone] at hc
    · have hlt : c.startedAt ≤ s.replacements := (h c hcm state hcs).1
      have hsnap : state ∈ s.snapshots := List.mem_filterMap.mpr ⟨c, hcm, hcs⟩
      have hne : auction.id ≠ state.auction.id :=
        hfresh.disjoint _ (Or.inr ⟨state, hsnap, rfl⟩) auction hm
      rw [hrep, hst, hf]
      refine ⟨by omega, iff_of_false (by omega) ?_⟩
      intro he
      exact hne (Option.some.inj he)
  · have hrep : s'.replacements = s.replacements := by simp [m.replacements_eq, hr]
    rcases horigin with ⟨hnone, -, -⟩ | ⟨c, hcm, hcs, hst⟩
    · simp [hnone] at hc
    · have hid := m.resolve_id h hu hc hreply hout
      have hw := h c hcm state hcs
      rw [hid] at hw
      rw [hrep, hst, hf]
      exact hw
  · have hrep : s'.replacements = s.replacements + 1 := by simp [m.replacements_eq, hr]
    rcases horigin with ⟨hnone, -, -⟩ | ⟨c, hcm, hcs, hst⟩
    · simp [hnone] at hc
    · have hlt : c.startedAt ≤ s.replacements := (h c hcm state hcs).1
      rw [hrep, hst, hf]
      refine ⟨by omega, iff_of_false (by omega) ?_⟩
      intro he
      cases he

end Move

theorem windows_step (hfresh : FreshIds ids s) (h : Windows s) (hu : Undisturbed s a) :
    Windows (s.step ids a) := by
  rcases s.step_cases ids a with he | ⟨⟨m⟩⟩
  · rwa [he]
  · exact m.windows hfresh h hu

theorem step_storeResult {call : Call} (hcall : s.callOf a = some call) {state : Snapshot}
    (hsus : call.suspended = .collectingData state) {prices quantities : List ℕ}
    (hreply : a.reply = some (.collected prices quantities)) {output : AuctionOutput}
    (hout : processAuction state.auctionInput = .ok output) :
    (s.step ids a).frontend = s.frontend.storeResult state.auction output.result := by
  cases a with
  | start op => cases hreply
  | resume i reply =>
    cases hreply
    have hi : s.calls[i]? = some call := hcall
    simp [System.step, hi, hsus, Frontend.resume, hout]

/-- In a state whose windows are right, the two conditions on the next action agree. -/
theorem writesOwnAuction_iff_undisturbed (h : Windows s) :
    WritesOwnAuction ids s a ↔ Undisturbed s a := by
  constructor
  · intro hw call hcall state prices quantities hsus hreply hvalid
    obtain ⟨output, hout, -⟩ := processAuction_ok hvalid
    have hmem : call ∈ s.calls := by
      cases a with
      | start op => cases hreply
      | resume i reply => exact List.mem_of_getElem? hcall
    have hiff := (h call hmem state (by rw [hsus]; rfl)).2
    have hstep : (s.step ids a).frontend = s.frontend.storeResult state.auction output.result :=
      step_storeResult hcall hsus hreply hout
    by_contra hst
    have hne : s.frontend.model.auction.map Auction.id ≠ some state.auction.id :=
      fun hid => hst (hiff.mpr hid)
    apply hne
    apply hw call hcall state.auction.id (by rw [hsus]; rfl)
    left
    intro he
    rw [hstep] at he
    apply hne
    rw [← he]
    rfl
  · intro hu call hcall id hid hchange
    rcases s.step_cases ids a with he | ⟨⟨m⟩⟩
    · simp [he] at hchange
    · have hm : m.call = some call := m.callOf_eq.symm.trans hcall
      rcases m.segment.writes with ⟨ha, hr, -⟩ | ⟨auction, hc, -, -⟩ |
        ⟨state, output, hc, hreply, hout, -, -⟩ | ⟨hc, -, -⟩
      · simp [ha, hr] at hchange
      · have hsus : call.suspended = .announcingAuction auction := by simpa [hm] using hc
        rw [hsus] at hid
        cases hid
      · have hsus : call.suspended = .collectingData state := by simpa [hm] using hc
        rw [hsus] at hid
        cases hid
        exact m.resolve_id h hu hc hreply hout
      · have hsus : call.suspended = .resetting := by simpa [hm] using hc
        rw [hsus] at hid
        cases hid

/-- In a run every trigger writes over its own auction only, if and only if none of them writes
after a reset or a broadcast has been stored since its start. -/
theorem triggers_write_own_iff (ids : ℕ → IdSource) (redispatchEvent : RedispatchEvent)
    (as : List Action) :
    Along (System.step ids) (WritesOwnAuction ids) (.initial redispatchEvent) as ↔
      Along (System.step ids) Undisturbed (.initial redispatchEvent) as := by
  apply along_congr (I := fun s => Lifecycle ids s ∧ Windows s)
  · intro s a ⟨hl, hw⟩ hp
    exact ⟨hl.step a, windows_step hl.freshIds hw ((writesOwnAuction_iff_undisturbed hw).mp hp)⟩
  · intro s a ⟨_, hw⟩
    exact writesOwnAuction_iff_undisturbed hw
  · refine ⟨initial_lifecycle redispatchEvent, ?_⟩
    intro c hc
    cases hc

/-- A reset completes while a trigger waits for the collected data. -/
def resetDuringTrigger : List Action :=
  [.start .broadcastAuction, .resume 0 (.transaction mockTransaction), .resume 0 .settled,
    .start (.updateBidPower 50), .start (.updateBidPrice 10), .start .placeBid,
    .resume 0 .settled, .start (.triggerAuction fun _ => 0),
    .resume 0 (.transaction mockTransaction), .start .resetAuction, .resume 1 .settled]

/-- The data arrives, and the trigger brings back the auction that the reset had cleared. -/
theorem resetDuringTrigger_undone :
    ¬Along (System.step fun _ => .server) (WritesOwnAuction fun _ => .server)
      (.initial mockRedispatchEvent) (resetDuringTrigger ++ [.resume 0 (.collected [] [])]) := by
  intro h
  have hw := (along_concat.mp h).2
  have hnone : (run (System.step fun _ => .server) (.initial mockRedispatchEvent)
      resetDuringTrigger).frontend.model.auction = none := rfl
  have hid := hw _ rfl "evt_ssr_1" (by decide +kernel) (Or.inl (by decide +kernel))
  rw [hnone] at hid
  cases hid

end GridFlex
