import GridFlex.Contract.Rounds
import GridFlex.Market.Log
import GridFlex.Market.Network

/-! The contract as the arbiter of concurrent calls: however many triggers are in flight, a round
of collection yields one result at most. -/
namespace GridFlex
open Transition Accepted

namespace Frontend

/-- The results that have been published. -/
def resultCount (f : Frontend) : ℕ := f.events.countP fun e => e.payload.result?.isSome

/-- The auctions that have been announced. -/
def broadcastCount (f : Frontend) : ℕ := f.events.countP fun e => e.payload.opens?.isSome

variable (ids : ℕ → IdSource) (f : Frontend)

theorem publish_resultCount (payload : EventPayload) :
    (f.publish ids payload).resultCount =
      f.resultCount + if payload.result?.isSome then 1 else 0 := by
  simp [resultCount, publish, createEvent, publishEvent, List.countP_singleton]

theorem publish_broadcastCount (payload : EventPayload) :
    (f.publish ids payload).broadcastCount =
      f.broadcastCount + if payload.opens?.isSome then 1 else 0 := by
  simp [broadcastCount, publish, createEvent, publishEvent, List.countP_singleton]

end Frontend

/-- The call has closed its round and has not published a result yet. -/
def Waiting.resolves : Waiting → Bool
  | ⟨.endingCollection _, some (.transaction _)⟩ | ⟨.collectingData _, _⟩
  | ⟨.resolvingAuction _ _, _⟩ => true
  | _ => false

/-- The call has opened a round and has not announced the auction yet. -/
def Waiting.announces : Waiting → Bool
  | ⟨.startingCollection _, some (.transaction _)⟩ => true
  | _ => false

variable {ids : ℕ → IdSource} {hardhat : Hardhat}

/-- The counts of the page, and how a call that stops at `next` adds to those in flight. -/
structure Counts (f : Frontend) (before : Option Waiting) (f' : Frontend)
    (after : Option Waiting) : Prop where
  results : f'.resultCount + after.toList.countP Waiting.resolves ≤
    f.resultCount + before.toList.countP Waiting.resolves
  broadcasts : f'.broadcastCount + after.toList.countP Waiting.announces ≤
    f.broadcastCount + before.toList.countP Waiting.announces

/-- A call that stops at another await has announced what it had to announce. -/
theorem counts_of_next {f f' : Frontend} {before : Option Waiting} {next : Option Suspended}
    (hresults : f'.resultCount = f.resultCount) (hbroadcasts : f'.broadcastCount = f.broadcastCount)
    (hnext : ∀ c ∈ next, (⟨c, none⟩ : Waiting).resolves = true →
      ∃ w ∈ before, w.resolves = true) : Counts f before f' (next.map (⟨·, none⟩)) := by
  cases next with
  | none => constructor <;> simp [hresults, hbroadcasts]
  | some c =>
    have hannounces : (⟨c, none⟩ : Waiting).announces = false := by cases c <;> rfl
    constructor
    · rw [hresults]
      cases hres : (⟨c, none⟩ : Waiting).resolves with
      | false => simp [hres]
      | true =>
        obtain ⟨w, hw, hres'⟩ := hnext c rfl hres
        cases hw
        simp [hres, hres']
    · simp [hbroadcasts, hannounces]

/-- The page publishes something else, or nothing, and the call is not about to resolve. -/
theorem counts_of_quiet {f f' : Frontend} {before : Option Waiting} {next : Option Suspended}
    (hresults : f'.resultCount = f.resultCount) (hbroadcasts : f'.broadcastCount = f.broadcastCount)
    (hnext : ∀ c ∈ next, (⟨c, none⟩ : Waiting).resolves = false) :
    Counts f before f' (next.map (⟨·, none⟩)) :=
  counts_of_next hresults hbroadcasts fun c hc h => absurd h (by simp [hnext c hc])

theorem begin_counts (f : Frontend) (op : Operation) :
    Counts f none (f.begin ids op).1 ((f.begin ids op).2.map (⟨·, none⟩)) := by
  have hbegin := begin_cases ids f op
  generalize (f.begin ids op).1 = f', (f.begin ids op).2 = next at hbegin ⊢
  cases hbegin with
  | placeBid | resetAuction =>
    exact counts_of_quiet (Frontend.publish_resultCount ids _ _)
      (Frontend.publish_broadcastCount ids _ _) (by simp [Waiting.resolves])
  | _ => exact counts_of_quiet rfl rfl (by simp [Waiting.resolves])

theorem receive_counts (f : Frontend) (reply : Reply) :
    (f.receive reply).resultCount = f.resultCount ∧
      (f.receive reply).broadcastCount = f.broadcastCount := by
  simp [Frontend.resultCount, Frontend.broadcastCount]

theorem announceNext_counts {f g : Frontend} (before : Option Waiting)
    (hresults : g.resultCount = f.resultCount) (hbroadcasts : g.broadcastCount = f.broadcastCount)
    (auctionId : String) (valid rest : List Participant) :
    Counts f before (g.announceNext ids auctionId valid rest).1
      ((g.announceNext ids auctionId valid rest).2.map (⟨·, none⟩)) := by
  cases rest with
  | nil => exact counts_of_quiet hresults hbroadcasts (by simp [Frontend.announceNext])
  | cons p rest =>
    refine counts_of_quiet ?_ ?_ ?_
    · exact (Frontend.publish_resultCount ids _ _).trans hresults
    · exact (Frontend.publish_broadcastCount ids _ _).trans hbroadcasts
    · simp [Frontend.announceNext, Waiting.resolves]

theorem resume_counts (f : Frontend) (c : Suspended) (reply : Reply) :
    Counts f (some ⟨c, some reply⟩) (f.resume ids c reply).1
      ((f.resume ids c reply).2.map (⟨·, none⟩)) := by
  by_cases hreply : c.SettledBy reply
  case neg =>
    rw [resume_unsettled hreply]
    refine counts_of_next rfl rfl ?_
    rintro _ ⟨⟩ hc
    exact ⟨_, rfl, by cases c <;> simp_all [Waiting.resolves]⟩
  cases c with
  | startingCollection redispatchEvent =>
    obtain ⟨tx, rfl⟩ | rfl := hreply
    · exact ⟨(Frontend.publish_resultCount ids _ _).le,
        (Frontend.publish_broadcastCount ids _ _).le⟩
    · exact counts_of_quiet rfl rfl (by simp [Frontend.resume])
  | endingCollection state =>
    obtain ⟨tx, rfl⟩ | rfl := hreply
    · exact counts_of_next rfl rfl fun _ _ _ => ⟨_, rfl, rfl⟩
    · exact counts_of_quiet rfl rfl (by simp [Frontend.resume])
  | collectingData state =>
    obtain ⟨prices, quantities, rfl⟩ | rfl := hreply
    · simp only [Frontend.resume]
      cases processAuction state.auctionInput with
      | ok output => exact counts_of_next rfl rfl fun _ _ _ => ⟨_, rfl, rfl⟩
      | error message => exact counts_of_quiet rfl rfl (by simp)
    · exact counts_of_quiet rfl rfl (by simp [Frontend.resume])
  | resolvingAuction auctionId bidId =>
    obtain rfl := hreply
    obtain ⟨output, -, -, hservice⟩ := f.serviceTriggerAuction_publishes ids auctionId bidId
    simp only [Frontend.resume, hservice]
    exact ⟨(Frontend.publish_resultCount ids _ _).le, (Frontend.publish_broadcastCount ids _ _).le⟩
  | submittingData auctionId valid hv p rest =>
    obtain ⟨hresults, hbroadcasts⟩ := receive_counts f reply
    obtain ⟨rfl, he⟩ | ⟨p', rest', c', rfl, he, hc'⟩ :=
      resume_submittingData ids f auctionId hv p rest hreply
    · rw [he]
      exact announceNext_counts _ hresults hbroadcasts auctionId valid valid
    · rw [he]
      refine counts_of_quiet hresults hbroadcasts ?_
      rcases hc' with rfl | rfl <;> simp [Waiting.resolves]
  | announcingBids auctionId valid rest =>
    obtain rfl := hreply
    exact announceNext_counts _ rfl rfl auctionId valid rest
  | announcingAuction | placingBid | auctionResolved | resetting | delaying =>
    obtain rfl := hreply
    exact counts_of_quiet rfl rfl (by simp [Frontend.resume, Waiting.resolves])

/-- Every result, also of a call that still has it ahead, stands for an end of a collection, and
every announced auction for a start. -/
structure Backed (n : Network) (past : List Accepted) : Prop where
  results : n.frontend.resultCount + n.calls.countP Waiting.resolves ≤ past.count .endCollection
  broadcasts : n.frontend.broadcastCount + n.calls.countP Waiting.announces ≤
    past.count .startCollection

section Runs

variable {Env : Type} (hardhat : Hardhat) (self : Address)
  (fromExternal : Env → ExternalEuint32 → Bytes → Except String Euint32)

/-- A call whose transaction is confirmed has left its mark in the history. -/
theorem settle_backed (fate : Fate) (env : Env) (chain : ChainState) (c : Suspended) :
    [(⟨c, some (hardhat.settle fate chain c).2⟩ : Waiting)].countP Waiting.resolves ≤
        [(⟨c, none⟩ : Waiting)].countP Waiting.resolves +
          (history self fromExternal chain (hardhat.sends fate env c).toList).count
            .endCollection ∧
      [(⟨c, some (hardhat.settle fate chain c).2⟩ : Waiting)].countP Waiting.announces ≤
        [(⟨c, none⟩ : Waiting)].countP Waiting.announces +
          (history self fromExternal chain (hardhat.sends fate env c).toList).count
            .startCollection := by
  cases c with
  | startingCollection redispatchEvent =>
    simp only [Hardhat.settle, Hardhat.serve, Hardhat.startCollection, Hardhat.transact,
      Hardhat.sends]
    cases fate <;> cases hstart : chain.collector.startCollection hardhat.wallet <;>
      simp [Fate.lands, history, emitted, accepted, execute, hstart, Except.map,
        Waiting.resolves, Waiting.announces]
  | endingCollection state =>
    simp only [Hardhat.settle, Hardhat.serve, Hardhat.endCollection, Hardhat.transact,
      Hardhat.sends]
    cases fate <;> cases hend : chain.collector.endCollection hardhat.wallet <;>
      simp [Fate.lands, history, emitted, accepted, execute, hend, Except.map,
        Waiting.resolves, Waiting.announces]
  | _ => simp [Waiting.resolves, Waiting.announces]

variable {hardhat self fromExternal} in
theorem Backed.step {n : Network} {past : List Accepted} (h : Backed n past)
    (a : NetworkAction Env) :
    Backed (n.step ids hardhat self fromExternal a)
      (past ++ history self fromExternal n.chain (n.sent hardhat a)) := by
  have hstep := n.step_cases ids hardhat self fromExternal a
  generalize n.step ids hardhat self fromExternal a = n', n.sent hardhat a = txs,
    n.resumed a = as at hstep ⊢
  have hresults := h.results
  have hbroadcasts := h.broadcasts
  cases hstep with
  | idle => simpa [history, emitted] using h
  | started op =>
    obtain ⟨hr, hb⟩ : Counts n.frontend none (n.frontend.begin ids op).1 _ :=
      begin_counts n.frontend op
    simp only [Option.toList_none, List.countP_nil, add_zero] at hr hb
    constructor <;> simp only [history, emitted, List.append_nil, List.countP_append] <;> omega
  | served before c after fate env hcalls =>
    obtain ⟨hr, hb⟩ := settle_backed hardhat self fromExternal fate env n.chain c
    rw [hcalls] at hresults hbroadcasts
    simp only [List.countP_append, List.countP_cons, List.countP_nil] at hr hb hresults hbroadcasts
    constructor <;> simp only [List.countP_append, List.countP_cons, List.count_append] <;> omega
  | delivered before c reply after hcalls =>
    obtain ⟨hr, hb⟩ : Counts n.frontend _ (n.frontend.resume ids c reply).1 _ :=
      resume_counts n.frontend c reply
    rw [hcalls] at hresults hbroadcasts
    simp only [List.countP_append, List.countP_cons] at hresults hbroadcasts
    simp only [Option.toList_some, List.countP_cons, List.countP_nil] at hr hb
    constructor <;> simp only [history, emitted, List.append_nil, List.countP_append] <;> omega
  | external tx =>
    constructor
    · rw [List.count_append]
      exact hresults.trans (Nat.le_add_right _ _)
    · rw [List.count_append]
      exact hbroadcasts.trans (Nat.le_add_right _ _)

variable (ids)

/-- What the contract's history says about the page. -/
structure RoundsRespected (deployer : Address) (n : Network) (past : List Accepted) : Prop where
  storage : MatchesHistory deployer n.chain.collector past
  once : ∀ before round after, past = before ++ round ++ after → .startCollection ∉ round →
    round.count .endCollection ≤ 1
  results : n.frontend.resultCount ≤ past.count .endCollection
  broadcasts : n.frontend.broadcastCount ≤ past.count .startCollection
  rounds : past.count .endCollection ≤ past.count .startCollection

/-- However the calls of the page and of others interleave, no round of collection is closed
twice, and there are no more results than closed rounds and no more auctions than rounds. -/
theorem one_result_per_round (deployer : Address) (grants : List (Euint32 × Address))
    (redispatchEvent : RedispatchEvent) (actions : List (NetworkAction Env)) :
    let n₀ := Network.initial deployer grants redispatchEvent
    RoundsRespected deployer (run (Network.step ids hardhat self fromExternal) n₀ actions)
      (history self fromExternal (deployed deployer grants)
        (n₀.transactions ids hardhat self fromExternal actions)) := by
  intro n₀
  let past := history self fromExternal (deployed deployer grants)
    (n₀.transactions ids hardhat self fromExternal actions)
  have hchain := n₀.run_chain ids hardhat self fromExternal actions
  have hstorage := chainRun_matchesHistory self fromExternal deployer grants
    (n₀.transactions ids hardhat self fromExternal actions)
  have hcloses : Closes past := chainRun_closes self fromExternal deployer grants _
  have hbacked : Backed (run (Network.step ids hardhat self fromExternal) n₀ actions) past := by
    have h : Backed (run (Network.step ids hardhat self fromExternal) n₀ actions)
        (emitted (Network.step ids hardhat self fromExternal)
          (fun n a => history self fromExternal n.chain (n.sent hardhat a)) n₀ actions) := by
      apply run_history (J := Backed)
      · exact fun n past a h => h.step a
      · constructor <;> exact le_rfl
    rwa [Network.history_sent] at h
  have hcount := hcloses.count_le
  refine ⟨?_, ?_, ?_, ?_, ?_⟩
  · rw [hchain]
    exact hstorage
  · intro before round after hpast hround
    have hsplit : Closes (before ++ round ++ after) := hpast ▸ hcloses
    exact hsplit.round hround
  · exact (Nat.le_add_right _ _).trans hbacked.results
  · exact (Nat.le_add_right _ _).trans hbacked.broadcasts
  · exact (Nat.le_add_right _ _).trans hcount

end Runs

end GridFlex
