import GridFlex.Market.Network
import GridFlex.Market.TriggerFailure

/-! The sequential market against the network. One call after another is the network under the
schedules that start nothing while a call is in flight, and nothing else. -/
namespace GridFlex
open Driver Transition

variable {ids : ℕ → IdSource} {hardhat : Hardhat}

/-- Is settling this await a call to the node? -/
def Suspended.asksNode : Suspended → Bool
  | .startingCollection _ | .endingCollection _ | .collectingData _
  | .submittingData _ _ _ _ _ => true
  | _ => false

/-- A call from an await to its return, with some fate for each call to the node. -/
inductive Returns (ids : ℕ → IdSource) (hardhat : Hardhat) :
    Frontend → ChainState → Option Suspended → Frontend → ChainState → Prop where
  | done (f : Frontend) (chain : ChainState) : Returns ids hardhat f chain none f chain
  | await (f : Frontend) (chain : ChainState) (c : Suspended) (fate : Fate) (f' : Frontend)
      (chain' : ChainState)
      (h : Returns ids hardhat (f.resume ids c (hardhat.settle fate chain c).2).1
        (hardhat.settle fate chain c).1 (f.resume ids c (hardhat.settle fate chain c).2).2
        f' chain') :
      Returns ids hardhat f chain (some c) f' chain'

theorem serve_eq (network : ℕ → Fate) (g : Gateway) (c : Suspended) :
    hardhat.serve network g c =
      (⟨(hardhat.settle (network g.served) g.chain c).1,
        g.served + if c.asksNode then 1 else 0⟩,
        (hardhat.settle (network g.served) g.chain c).2) := by
  have htransact (fate : Fate) (attempted : Except String FHEDataCollector) :
      Hardhat.transact fate g attempted =
        (⟨(Hardhat.transact fate ⟨g.chain, 0⟩ attempted).1.chain, g.served + 1⟩,
          (Hardhat.transact fate ⟨g.chain, 0⟩ attempted).2) := by
    cases attempted <;> cases fate <;> rfl
  have hcollect (fate : Fate) : hardhat.getCollectedData fate g =
      (⟨(hardhat.getCollectedData fate ⟨g.chain, 0⟩).1.chain, g.served + 1⟩,
        (hardhat.getCollectedData fate ⟨g.chain, 0⟩).2) := by
    unfold Hardhat.getCollectedData
    cases g.chain.collector.getCollectedData hardhat.wallet <;> cases fate <;> rfl
  have hsubmit (fate : Fate) (price quantity : ℚ) (participantId : String) :
      hardhat.submitData fate g price quantity participantId =
        (⟨(hardhat.submitData fate ⟨g.chain, 0⟩ price quantity participantId).1.chain,
          g.served + 1⟩,
          (hardhat.submitData fate ⟨g.chain, 0⟩ price quantity participantId).2) := by
    unfold Hardhat.submitData
    cases participantAccountMap participantId with
    | none => cases fate <;> rfl
    | some account =>
      cases fate with
      | confirms receipt =>
        cases g.chain.collector.collecting && hardhat.encodes price &&
          hardhat.encodes quantity <;> rfl
      | _ => rfl
  cases c with
  | startingCollection redispatchEvent => exact htransact _ _
  | endingCollection state => exact htransact _ _
  | collectingData state => exact hcollect _
  | submittingData auctionId valid hv p rest => exact hsubmit _ _ _ _
  | _ => rfl

/-- The fate is not asked for when the node is not. -/
theorem settle_fate {c : Suspended} (h : c.asksNode = false) (fate fate' : Fate)
    (chain : ChainState) : hardhat.settle fate chain c = hardhat.settle fate' chain c := by
  cases c <;> first | rfl | cases h

/-- The fates of calls to the node that have been made do not matter any more. -/
theorem drive_congr {network network' : ℕ → Fate} {k : ℕ}
    (h : ∀ j, k ≤ j → network j = network' j) {fuel : ℕ} {f : Frontend} {g : Gateway}
    {next : Option Suspended} (hg : k ≤ g.served) :
    drive (Frontend.resume ids) (hardhat.serve network) fuel f g next =
      drive (Frontend.resume ids) (hardhat.serve network') fuel f g next := by
  induction fuel generalizing f g next with
  | zero => cases next <;> rfl
  | succ fuel ih =>
    cases next with
    | none => rfl
    | some c =>
      have hserve : hardhat.serve network g c = hardhat.serve network' g c := by
        rw [serve_eq, serve_eq, h g.served hg]
      have hserved : k ≤ (hardhat.serve network' g c).1.served := by
        rw [serve_eq]
        exact hg.trans (Nat.le_add_right _ _)
      rw [drive_succ, drive_succ, hserve]
      simp only [ih hserved]

theorem returns_of_drive {network : ℕ → Fate} {fuel : ℕ} {f : Frontend} {g : Gateway}
    {next : Option Suspended}
    (hleft : (drive (Frontend.resume ids) (hardhat.serve network) fuel f g next).left = none) :
    Returns ids hardhat f g.chain next
      (drive (Frontend.resume ids) (hardhat.serve network) fuel f g next).state
      (drive (Frontend.resume ids) (hardhat.serve network) fuel f g next).env.chain := by
  induction fuel generalizing f g next with
  | zero =>
    cases next with
    | none => exact .done f g.chain
    | some c => cases hleft
  | succ fuel ih =>
    cases next with
    | none => exact .done f g.chain
    | some c =>
      rw [drive_succ] at hleft ⊢
      have hrest := ih hleft
      rw [serve_eq] at hrest ⊢
      exact .await f g.chain c (network g.served) _ _ hrest

theorem drive_of_returns {f f' : Frontend} {chain chain' : ChainState} {next : Option Suspended}
    (h : Returns ids hardhat f chain next f' chain') (k : ℕ) :
    ∃ network fuel,
      let o := drive (Frontend.resume ids) (hardhat.serve network) fuel f ⟨chain, k⟩ next
      o.left = none ∧ o.state = f' ∧ o.env.chain = chain' := by
  induction h generalizing k with
  | done f chain => exact ⟨fun _ => .drops, 0, rfl, rfl, rfl⟩
  | await f chain c fate f' chain' _ ih =>
    cases hasks : c.asksNode with
    | true =>
      -- the fate of this await goes in front of those of the rest
      obtain ⟨network, fuel, hrest⟩ := ih (k + 1)
      refine ⟨Function.update network k fate, fuel + 1, ?_⟩
      have hserve : hardhat.serve (Function.update network k fate) ⟨chain, k⟩ c =
          (⟨(hardhat.settle fate chain c).1, k + 1⟩, (hardhat.settle fate chain c).2) := by
        rw [serve_eq]
        simp only [hasks, if_true, Function.update_self]
      have hsame : ∀ j, k + 1 ≤ j → Function.update network k fate j = network j := by
        intro j hj
        have hne : j ≠ k := by omega
        exact Function.update_of_ne hne fate network
      let r := f.resume ids c (hardhat.settle fate chain c).2
      have hrun : drive (Frontend.resume ids) (hardhat.serve (Function.update network k fate)) fuel
          r.1 ⟨(hardhat.settle fate chain c).1, k + 1⟩ r.2 =
          drive (Frontend.resume ids) (hardhat.serve network) fuel
            r.1 ⟨(hardhat.settle fate chain c).1, k + 1⟩ r.2 := drive_congr hsame le_rfl
      rw [← hrun] at hrest
      rw [drive_succ, hserve]
      exact hrest
    | false =>
      obtain ⟨network, fuel, hrest⟩ := ih k
      refine ⟨network, fuel + 1, ?_⟩
      have hserve : hardhat.serve network ⟨chain, k⟩ c =
          (⟨(hardhat.settle fate chain c).1, k⟩, (hardhat.settle fate chain c).2) := by
        rw [serve_eq, settle_fate hasks (network k) fate]
        simp [hasks]
      rw [drive_succ, hserve]
      exact hrest

namespace Market

theorem perform_returns (m : Market) (i : Invocation) :
    Returns ids hardhat (m.frontend.begin ids i.operation).1 m.chain
      (m.frontend.begin ids i.operation).2 (m.perform ids hardhat i).frontend
      (m.perform ids hardhat i).chain :=
  returns_of_drive outcome_left

theorem perform_of_returns {m : Market} {op : Operation} {f' : Frontend} {chain' : ChainState}
    (h : Returns ids hardhat (m.frontend.begin ids op).1 m.chain (m.frontend.begin ids op).2
      f' chain') :
    ∃ network, m.perform ids hardhat ⟨op, network⟩ = ⟨f', chain'⟩ := by
  obtain ⟨network, fuel, hleft, rfl, rfl⟩ := drive_of_returns h 0
  refine ⟨network, ?_⟩
  have hsame : m.outcome ids hardhat ⟨op, network⟩ =
      drive (Frontend.resume ids) (hardhat.serve network) fuel (m.frontend.begin ids op).1
        ⟨m.chain, 0⟩ (m.frontend.begin ids op).2 := drive_fuel outcome_left hleft
  unfold perform
  rw [hsame]

end Market

/-- What is asked for, apart from how the node serves it. -/
inductive Request (Env : Type) where
  | start (op : Operation)
  | external (tx : Tx Env)

def MarketAction.request {Env : Type} : MarketAction Env → Request Env
  | .perform i => .start i.operation
  | .external tx => .external tx

def NetworkAction.request? {Env : Type} : NetworkAction Env → Option (Request Env)
  | .start op => some (.start op)
  | .external tx => some (.external tx)
  | _ => none

/-- Nothing new is asked for while a call is in flight. -/
def Network.Alone {Env : Type} (n : Network) (a : NetworkAction Env) : Prop :=
  a.request?.isSome = true → n.calls = []

/-- The network between two calls. -/
def Market.network (m : Market) : Network := ⟨m.frontend, [], m.chain⟩

section Schedules

variable {Env : Type} (self : Address)
  (fromExternal : Env → ExternalEuint32 → Bytes → Except String Euint32)

/-- A call that returns can be served and resumed one await at a time. -/
theorem Returns.schedule (env : Env) {f f' : Frontend} {chain chain' : ChainState}
    {next : Option Suspended} (h : Returns ids hardhat f chain next f' chain') :
    ∃ schedule : List (NetworkAction Env), (∀ a ∈ schedule, a.request? = none) ∧
      run (Network.step ids hardhat self fromExternal)
        ⟨f, (next.map (⟨·, none⟩)).toList, chain⟩ schedule = ⟨f', [], chain'⟩ := by
  induction h with
  | done f chain => exact ⟨[], by simp, rfl⟩
  | await f chain c fate f' chain' _ ih =>
    obtain ⟨schedule, hserving, hrun⟩ := ih
    refine ⟨.serve 0 fate env :: .deliver 0 :: schedule, ?_, ?_⟩
    · simpa [NetworkAction.request?] using hserving
    · rw [← hrun]
      simp [Network.step]

theorem Market.step_schedule (ids : ℕ → IdSource) (hardhat : Hardhat) (env : Env) (m : Market)
    (a : MarketAction Env) :
    ∃ schedule : List (NetworkAction Env),
      Along (Network.step ids hardhat self fromExternal) Network.Alone m.network schedule ∧
      schedule.filterMap NetworkAction.request? = [a.request] ∧
      run (Network.step ids hardhat self fromExternal) m.network schedule =
        (m.step ids hardhat self fromExternal a).network := by
  cases a with
  | external tx =>
    refine ⟨[.external tx], ?_, rfl, rfl⟩
    exact along_cons.mpr ⟨fun _ => rfl, along_nil _ _⟩
  | perform i =>
    have hreturns : Returns ids hardhat _ _ _ _ _ := m.perform_returns i
    obtain ⟨schedule, hserving, hrun⟩ := hreturns.schedule self fromExternal env
    refine ⟨.start i.operation :: schedule, along_cons.mpr ⟨fun _ => rfl, ?_⟩, ?_, ?_⟩
    · rintro before a after rfl hrequest
      simp [hserving a (by simp)] at hrequest
    · have hnone := List.filterMap_eq_nil_iff.mpr hserving
      simp only [List.filterMap_cons, NetworkAction.request?, hnone, MarketAction.request]
    · rw [run_cons]
      exact hrun

/-- The call in flight comes to its return in `m`. -/
def Finishes (ids : ℕ → IdSource) (hardhat : Hardhat) (f : Frontend) (chain : ChainState) :
    Option Waiting → Market → Prop
  | none, m => m = ⟨f, chain⟩
  | some ⟨c, none⟩, m => Returns ids hardhat f chain (some c) m.frontend m.chain
  | some ⟨c, some reply⟩, m =>
      Returns ids hardhat (f.resume ids c reply).1 chain (f.resume ids c reply).2
        m.frontend m.chain

theorem returns_of_finishes {f : Frontend} {chain : ChainState} {next : Option Suspended}
    {m : Market} (h : Finishes ids hardhat f chain (next.map (⟨·, none⟩)) m) :
    Returns ids hardhat f chain next m.frontend m.chain := by
  cases next with
  | none =>
    obtain rfl : m = ⟨f, chain⟩ := h
    exact .done f chain
  | some c => exact h

/-- The only call in flight goes on. -/
theorem step_deliver_only (f : Frontend) (chain : ChainState) (c : Suspended) (reply : Reply) :
    Network.step ids hardhat self fromExternal
        ⟨f, (some (⟨c, some reply⟩ : Waiting)).toList, chain⟩ (.deliver 0) =
      ⟨(f.resume ids c reply).1, ((f.resume ids c reply).2.map (⟨·, none⟩)).toList, chain⟩ := by
  simp [Network.step]

/-- A schedule that starts nothing while a call is in flight finishes that call and performs what
it starts, one after another. -/
theorem schedule_market {schedule : List (NetworkAction Env)} {f f' : Frontend}
    {chain chain' : ChainState} {call : Option Waiting}
    (halone : Along (Network.step ids hardhat self fromExternal) Network.Alone
      ⟨f, call.toList, chain⟩ schedule)
    (hend : run (Network.step ids hardhat self fromExternal) ⟨f, call.toList, chain⟩ schedule =
      ⟨f', [], chain'⟩) :
    ∃ m actions, Finishes ids hardhat f chain call m ∧
      actions.map MarketAction.request = schedule.filterMap NetworkAction.request? ∧
      run (Market.step ids hardhat self fromExternal) m actions = ⟨f', chain'⟩ := by
  induction schedule generalizing f chain call with
  | nil =>
    obtain ⟨rfl, hcall, rfl⟩ : f = f' ∧ call.toList = [] ∧ chain = chain' := by
      simpa using hend
    obtain rfl := Option.toList_eq_nil_iff.mp hcall
    exact ⟨⟨f, chain⟩, [], rfl, rfl, rfl⟩
  | cons a schedule ih =>
    obtain ⟨ha, halone⟩ := along_cons.mp halone
    rw [run_cons] at hend
    cases call with
    | none =>
      cases a with
      | start op =>
        obtain ⟨m, actions, hfinish, hrequests, hrun⟩ :=
          @ih (f.begin ids op).1 chain ((f.begin ids op).2.map (⟨·, none⟩)) halone hend
        have hperform : ∃ network, (⟨f, chain⟩ : Market).perform ids hardhat ⟨op, network⟩ = m :=
          Market.perform_of_returns (returns_of_finishes hfinish)
        obtain ⟨network, rfl⟩ := hperform
        refine ⟨⟨f, chain⟩, .perform ⟨op, network⟩ :: actions, rfl, ?_, hrun⟩
        simp only [List.map_cons, hrequests, List.filterMap_cons, MarketAction.request,
          NetworkAction.request?]
      | external tx =>
        obtain ⟨m, actions, rfl, hrequests, hrun⟩ :=
          @ih f (attempt self fromExternal chain tx) none halone hend
        refine ⟨⟨f, chain⟩, .external tx :: actions, rfl, ?_, hrun⟩
        simp only [List.map_cons, hrequests, List.filterMap_cons, MarketAction.request,
          NetworkAction.request?]
      | serve i fate env => exact @ih f chain none halone hend
      | deliver i => exact @ih f chain none halone hend
    | some w =>
      obtain ⟨c, pending⟩ := w
      cases a with
      | start op => cases ha rfl
      | external tx => cases ha rfl
      | serve i fate env =>
        cases i with
        | succ i => exact @ih f chain (some ⟨c, pending⟩) halone hend
        | zero =>
          cases pending with
          | some reply => exact @ih f chain (some ⟨c, some reply⟩) halone hend
          | none =>
            obtain ⟨m, actions, hfinish, hrest⟩ :=
              @ih f (hardhat.settle fate chain c).1 (some ⟨c, some (hardhat.settle fate chain c).2⟩)
                halone hend
            exact ⟨m, actions, .await f chain c fate _ _ hfinish, hrest⟩
      | deliver i =>
        cases i with
        | succ i => exact @ih f chain (some ⟨c, pending⟩) halone hend
        | zero =>
          cases pending with
          | none => exact @ih f chain (some ⟨c, none⟩) halone hend
          | some reply =>
            rw [step_deliver_only] at halone hend
            obtain ⟨m, actions, hfinish, hrest⟩ := ih halone hend
            exact ⟨m, actions, returns_of_finishes hfinish, hrest⟩

/-- The histories of the sequential market are the runs of the network that start nothing while
a call is in flight and end with none: they ask for the same and lead to the same page and
contract. -/
theorem sequential_schedules_exact (ids : ℕ → IdSource) (hardhat : Hardhat) (self : Address)
    (fromExternal : Env → ExternalEuint32 → Bytes → Except String Euint32) (env : Env)
    (m m' : Market) (requests : List (Request Env)) :
    (∃ actions : List (MarketAction Env), actions.map MarketAction.request = requests ∧
      run (Market.step ids hardhat self fromExternal) m actions = m') ↔
    ∃ schedule : List (NetworkAction Env),
      Along (Network.step ids hardhat self fromExternal) Network.Alone m.network schedule ∧
      schedule.filterMap NetworkAction.request? = requests ∧
      run (Network.step ids hardhat self fromExternal) m.network schedule = m'.network := by
  constructor
  · rintro ⟨actions, rfl, rfl⟩
    induction actions generalizing m with
    | nil => exact ⟨[], along_nil _ _, rfl, rfl⟩
    | cons a actions ih =>
      obtain ⟨first, halone, hrequest, hrun⟩ :=
        m.step_schedule self fromExternal ids hardhat env a
      obtain ⟨rest, halone', hrequest', hrun'⟩ := ih (m.step ids hardhat self fromExternal a)
      refine ⟨first ++ rest, along_append.mpr ⟨halone, ?_⟩, ?_, ?_⟩
      · rw [hrun]
        exact halone'
      · rw [List.filterMap_append, hrequest, hrequest']
        rfl
      · rw [run_append, hrun, hrun']
        rfl
  · rintro ⟨schedule, halone, rfl, hrun⟩
    have hmarket : ∃ m₁ actions, Finishes ids hardhat m.frontend m.chain none m₁ ∧
        actions.map MarketAction.request = schedule.filterMap NetworkAction.request? ∧
        run (Market.step ids hardhat self fromExternal) m₁ actions = ⟨m'.frontend, m'.chain⟩ :=
      schedule_market self fromExternal halone hrun
    obtain ⟨m₁, actions, rfl, hrequests, hactions⟩ := hmarket
    exact ⟨actions, hrequests, hactions⟩

end Schedules

end GridFlex
