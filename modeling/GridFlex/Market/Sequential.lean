import GridFlex.Contract.History
import GridFlex.Frontend.Effects
import GridFlex.Frontend.Segments
import GridFlex.Lib.Driver
import GridFlex.Market.Hardhat

/-! Controller calls executed one after another against the contract: each runs from await to
await until it returns. -/
namespace GridFlex
open Driver Transition

structure Market where
  frontend : Frontend
  chain : ChainState

structure Invocation where
  operation : Operation
  network : ℕ → Fate

/-- How many awaits can still follow this one. -/
def Suspended.awaits : Suspended → ℕ
  | .startingCollection _ => 1
  | .announcingAuction _ | .placingBid _ | .auctionResolved _ | .resetting => 0
  | .endingCollection _ => 3
  | .collectingData _ => 2
  | .resolvingAuction _ _ => 1
  | .submittingData _ valid _ _ rest => valid.length + 2 * rest.length
  | .delaying _ valid _ _ rest => valid.length + 2 * rest.length + 1
  | .announcingBids _ _ rest => rest.length

namespace Market

variable (ids : ℕ → IdSource) (hardhat : Hardhat)

/-- The call from its start to its return. -/
def outcome (m : Market) (i : Invocation) : Outcome Frontend Gateway Suspended :=
  let (f, next) := m.frontend.begin ids i.operation
  drive (Frontend.resume ids) (hardhat.serve i.network)
    ((next.map fun c => c.awaits + 1).getD 0) f ⟨m.chain, 0⟩ next

def perform (m : Market) (i : Invocation) : Market :=
  ⟨(m.outcome ids hardhat i).state, (m.outcome ids hardhat i).env.chain⟩

end Market

/-- An operation all of whose calls succeed that the contract lets through. -/
structure Order where
  operation : Operation
  receipts : ℕ → BlockchainTransaction

def Order.invocation (o : Order) : Invocation :=
  ⟨o.operation, fun k => .confirms (o.receipts k)⟩

namespace Market

def operate (ids : ℕ → IdSource) (hardhat : Hardhat) (m : Market) (o : Order) : Market :=
  m.perform ids hardhat o.invocation

/-- The initial model and the freshly deployed contract. -/
def initial (deployer : Address) (grants : List (Euint32 × Address))
    (redispatchEvent : RedispatchEvent) : Market :=
  ⟨.initial redispatchEvent, deployed deployer grants⟩

end Market

variable {ids : ℕ → IdSource} {hardhat : Hardhat}

theorem announceNext_awaits {f : Frontend} {auctionId : String} {valid rest : List Participant}
    {c' : Suspended} (h : (f.announceNext ids auctionId valid rest).2 = some c') :
    c'.awaits < rest.length := by
  cases rest with
  | nil => cases h
  | cons p rest =>
    cases h
    simp [Suspended.awaits]

/-- Every await that settles brings the call closer to its return. -/
theorem resume_awaits_lt {f : Frontend} {c c' : Suspended} {reply : Reply}
    (hreply : c.SettledBy reply) (h : (f.resume ids c reply).2 = some c') :
    c'.awaits < c.awaits := by
  cases c with
  | startingCollection redispatchEvent =>
    obtain ⟨tx, rfl⟩ | rfl := hreply
    · cases h
      simp [Suspended.awaits]
    · cases h
  | endingCollection state =>
    obtain ⟨tx, rfl⟩ | rfl := hreply
    · cases h
      simp [Suspended.awaits]
    · cases h
  | collectingData state =>
    obtain ⟨prices, quantities, rfl⟩ | rfl := hreply
    · cases hout : processAuction state.auctionInput with
      | ok output =>
        simp only [Frontend.resume, hout, Option.some.injEq] at h
        simp [← h, Suspended.awaits]
      | error message => simp [Frontend.resume, hout] at h
    · cases h
  | resolvingAuction auctionId bidId =>
    obtain rfl := hreply
    cases h
    simp [Suspended.awaits]
  | submittingData auctionId valid hv p rest =>
    have hpos : 0 < valid.length := List.length_pos_iff.mpr hv
    obtain ⟨rfl, he⟩ | ⟨p', rest', c₀, rfl, he, hc₀⟩ :=
      resume_submittingData ids f auctionId hv p rest hreply
    · rw [he] at h
      simpa [Suspended.awaits] using announceNext_awaits h
    · rw [he] at h
      cases h
      rcases hc₀ with rfl | rfl
      · simp only [Suspended.awaits, List.length_cons]
        omega
      · simp only [Suspended.awaits, List.length_cons]
        omega
  | delaying auctionId valid hv p rest =>
    obtain rfl := hreply
    cases h
    simp [Suspended.awaits]
  | announcingBids auctionId valid rest =>
    obtain rfl := hreply
    exact announceNext_awaits h
  | announcingAuction | placingBid | auctionResolved | resetting =>
    obtain rfl := hreply
    cases h

namespace Market

variable {m : Market} {i : Invocation}

theorem outcome_left : (m.outcome ids hardhat i).left = none := by
  apply drive_left Suspended.awaits
  · intro f g c c' h
    exact resume_awaits_lt (hardhat.serve_settledBy i.network g c) h
  · intro c hc
    simp [hc]

/-- What holds from await to await, and at the return, holds of the whole operation. -/
theorem outcome_rule {I : Frontend → Gateway → Suspended → Prop} {Q : Frontend → Gateway → Prop}
    (hstart : ∀ c, (m.frontend.begin ids i.operation).2 = some c →
      I (m.frontend.begin ids i.operation).1 ⟨m.chain, 0⟩ c)
    (hreturn : (m.frontend.begin ids i.operation).2 = none →
      Q (m.frontend.begin ids i.operation).1 ⟨m.chain, 0⟩)
    (hcont : ∀ f g c c', I f g c →
      (f.resume ids c (hardhat.serve i.network g c).2).2 = some c' →
      I (f.resume ids c (hardhat.serve i.network g c).2).1 (hardhat.serve i.network g c).1 c')
    (hdone : ∀ f g c, I f g c →
      (f.resume ids c (hardhat.serve i.network g c).2).2 = none →
      Q (f.resume ids c (hardhat.serve i.network g c).2).1 (hardhat.serve i.network g c).1) :
    Q (m.outcome ids hardhat i).state (m.outcome ids hardhat i).env :=
  drive_rule hcont hdone hstart hreturn outcome_left

/-- What the start and every await keep holds of the whole operation. -/
theorem outcome_invariant {I : Frontend → Gateway → Prop}
    (hstart : I (m.frontend.begin ids i.operation).1 ⟨m.chain, 0⟩)
    (hstep : ∀ f g c, I f g → I (f.resume ids c (hardhat.serve i.network g c).2).1
      (hardhat.serve i.network g c).1) :
    I (m.outcome ids hardhat i).state (m.outcome ids hardhat i).env :=
  drive_invariant hstep hstart

end Market

/-- What no operation touches: the redispatch event and the identities of the participants. -/
structure Standing (redispatchEvent : RedispatchEvent) (f : Frontend) : Prop where
  redispatchEvent : f.model.redispatchEvent = redispatchEvent
  participants : f.model.participants.map Participant.id =
    initialParticipants.map Participant.id

namespace Standing

variable {redispatchEvent : RedispatchEvent} {f : Frontend}

theorem dispatch (h : Standing redispatchEvent f) (action : GridFlexibilityAction) :
    Standing redispatchEvent (f.dispatch action) := by
  cases action with
  | updateParticipant id powerMW pricePerMW =>
    refine ⟨h.redispatchEvent, ?_⟩
    rw [← h.participants]
    simp only [Frontend.dispatch, GridFlexibilityState.dispatch, List.map_map]
    apply List.map_congr_left
    intro p _
    dsimp only [Function.comp]
    split <;> rfl
  | resetAuction => exact ⟨h.redispatchEvent, rfl⟩
  | _ => exact ⟨h.redispatchEvent, h.participants⟩

theorem effects {g : Frontend} {payloads : List EventPayload} (h : Standing redispatchEvent f)
    (he : Effects ids f payloads g) : Standing redispatchEvent g := by
  induction he with
  | refl => exact h
  | dispatch _ action _ ih => exact ih.dispatch action
  | publish _ _ ih => exact ⟨ih.redispatchEvent, ih.participants⟩
  | count _ ih => exact ⟨ih.redispatchEvent, ih.participants⟩

theorem start (h : Standing redispatchEvent f) (op : Operation) :
    Standing redispatchEvent (f.begin ids op).1 := by
  obtain ⟨_, he, -⟩ := (begin_speaks f op).effects
  exact h.effects he

theorem resume (h : Standing redispatchEvent f) (c : Suspended) (reply : Reply) :
    Standing redispatchEvent (f.resume ids c reply).1 := by
  obtain ⟨_, he, -⟩ := (resume_speaks f c reply).effects
  exact h.effects he

theorem perform {m : Market} (h : Standing redispatchEvent m.frontend) (i : Invocation) :
    Standing redispatchEvent (m.perform ids hardhat i).frontend := by
  apply Market.outcome_invariant (I := fun f _ => Standing redispatchEvent f)
  · exact h.start i.operation
  · exact fun f g c hf => hf.resume c _

end Standing

theorem serve_owner (network : ℕ → Fate) (g : Gateway) (c : Suspended) :
    (hardhat.serve network g c).1.chain.collector.owner = g.chain.collector.owner := by
  cases c with
  | startingCollection redispatchEvent =>
    rcases Hardhat.transact_chain (network g.served) g
      (g.chain.collector.startCollection hardhat.wallet) with h | ⟨collector, hok, h⟩
    · exact congrArg (·.collector.owner) h
    · obtain ⟨-, rfl⟩ := FHEDataCollector.startCollection_ok.mp hok
      exact congrArg (·.collector.owner) h
  | endingCollection state =>
    rcases Hardhat.transact_chain (network g.served) g
      (g.chain.collector.endCollection hardhat.wallet) with h | ⟨collector, hok, h⟩
    · exact congrArg (·.collector.owner) h
    · obtain ⟨-, -, rfl⟩ := FHEDataCollector.endCollection_ok.mp hok
      exact congrArg (·.collector.owner) h
  | collectingData state => exact congrArg (·.collector.owner) (hardhat.getCollectedData_spec _ g).1
  | submittingData auctionId valid hv p rest =>
    exact congrArg (·.collector.owner) (hardhat.submitData_spec _ g _ _ _).1
  | _ => rfl

theorem Market.perform_owner (m : Market) (i : Invocation) :
    (m.perform ids hardhat i).chain.collector.owner = m.chain.collector.owner := by
  apply Market.outcome_invariant
    (I := fun _ g => g.chain.collector.owner = m.chain.collector.owner)
  · rfl
  · exact fun f g c hg => (serve_owner _ g c).trans hg

end GridFlex
