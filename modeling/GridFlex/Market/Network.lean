import GridFlex.Market.Interleaved

/-! Controller calls in flight against one contract. The node serves the await of a call at one
moment and the call goes on at a later one, and others may call the contract in between. -/
namespace GridFlex
open Transition

/-- A call in flight, with the settled promise that it has not gone on from yet. -/
structure Waiting where
  suspended : Suspended
  reply : Option Reply

structure Network where
  frontend : Frontend
  calls : List Waiting
  chain : ChainState

inductive NetworkAction (Env : Type) where
  | start (op : Operation)
  /-- The node, a timer or the service settles the await of a call. -/
  | serve (call : ℕ) (fate : Fate) (env : Env)
  | deliver (call : ℕ)
  | external (tx : Tx Env)

/-- Does the call reach the contract? -/
def Fate.lands : Fate → Bool
  | .drops => false
  | _ => true

namespace Hardhat

/-- The transaction that settling this await sends to the contract, if one gets there. -/
def sends {Env : Type} (hardhat : Hardhat) (fate : Fate) (env : Env) :
    Suspended → Option (Tx Env)
  | .startingCollection _ =>
      if fate.lands then some ⟨hardhat.wallet, env, .startCollection⟩ else none
  | .endingCollection _ =>
      if fate.lands then some ⟨hardhat.wallet, env, .endCollection⟩ else none
  | _ => none

/-- The settling of one await on its own. -/
def settle (hardhat : Hardhat) (fate : Fate) (chain : ChainState) (c : Suspended) :
    ChainState × Reply :=
  let (g, reply) := hardhat.serve (fun _ => fate) ⟨chain, 0⟩ c
  (g.chain, reply)

end Hardhat

section Steps

variable {Env : Type} (ids : ℕ → IdSource) (hardhat : Hardhat) (self : Address)
  (fromExternal : Env → ExternalEuint32 → Bytes → Except String Euint32)

namespace Network

def initial (deployer : Address) (grants : List (Euint32 × Address))
    (redispatchEvent : RedispatchEvent) : Network :=
  ⟨.initial redispatchEvent, [], deployed deployer grants⟩

def step (n : Network) : NetworkAction Env → Network
  | .start op =>
      let (f, next) := n.frontend.begin ids op
      { n with frontend := f, calls := n.calls ++ (next.map (⟨·, none⟩)).toList }
  | .serve i fate _ =>
      match n.calls[i]? with
      | some ⟨c, none⟩ =>
          let (chain, reply) := hardhat.settle fate n.chain c
          { n with chain := chain, calls := n.calls.set i ⟨c, some reply⟩ }
      | _ => n
  | .deliver i =>
      match n.calls[i]? with
      | some ⟨c, some reply⟩ =>
          let (f, next) := n.frontend.resume ids c reply
          { n with
            frontend := f
            calls := n.calls.take i ++ (next.map (⟨·, none⟩)).toList ++ n.calls.drop (i + 1) }
      | _ => n
  | .external tx => { n with chain := attempt self fromExternal n.chain tx }

/-- The transactions that an action sends to the contract. -/
def sent (n : Network) : NetworkAction Env → List (Tx Env)
  | .serve i fate env =>
      match n.calls[i]? with
      | some ⟨c, none⟩ => (hardhat.sends fate env c).toList
      | _ => []
  | .external tx => [tx]
  | _ => []

/-- Does an action settle the await of a call, or let a call go on? -/
def progresses (n : Network) : NetworkAction Env → Bool
  | .serve i _ _ =>
      match n.calls[i]? with
      | some ⟨_, none⟩ => true
      | _ => false
  | .deliver i =>
      match n.calls[i]? with
      | some ⟨_, some _⟩ => true
      | _ => false
  | _ => false

/-- How the page is resumed by an action. -/
def resumed (n : Network) : NetworkAction Env → List Action
  | .start op => [.start op]
  | .deliver i =>
      match n.calls[i]? with
      | some ⟨_, some reply⟩ => [.resume i reply]
      | _ => []
  | _ => []

end Network

/-- What one action does: nothing, or one of four updates. -/
inductive NetworkStep (n : Network) : NetworkAction Env → Network → List (Tx Env) →
    List Action → Prop where
  | idle {a} (hidle : n.progresses a = false) : NetworkStep n a n [] []
  | started (op : Operation) :
      NetworkStep n (.start op)
        { n with
          frontend := (n.frontend.begin ids op).1
          calls := n.calls ++ ((n.frontend.begin ids op).2.map (⟨·, none⟩)).toList }
        [] [.start op]
  | served (before : List Waiting) (c : Suspended) (after : List Waiting) (fate : Fate) (env : Env)
      (hcalls : n.calls = before ++ ⟨c, none⟩ :: after) :
      NetworkStep n (.serve before.length fate env)
        { n with
          chain := (hardhat.settle fate n.chain c).1
          calls := before ++ ⟨c, some (hardhat.settle fate n.chain c).2⟩ :: after }
        (hardhat.sends fate env c).toList []
  | delivered (before : List Waiting) (c : Suspended) (reply : Reply) (after : List Waiting)
      (hcalls : n.calls = before ++ ⟨c, some reply⟩ :: after) :
      NetworkStep n (.deliver before.length)
        { n with
          frontend := (n.frontend.resume ids c reply).1
          calls := before ++ ((n.frontend.resume ids c reply).2.map (⟨·, none⟩)).toList ++ after }
        [] [.resume before.length reply]
  | external (tx : Tx Env) :
      NetworkStep n (.external tx) { n with chain := attempt self fromExternal n.chain tx } [tx] []

/-- The element at a position, between what is before and what is after it. -/
theorem split_at {α : Type*} {xs : List α} {i : ℕ} {x : α} (h : xs[i]? = some x) :
    ∃ before after, xs = before ++ x :: after ∧ i = before.length := by
  obtain ⟨hi, rfl⟩ := List.getElem?_eq_some_iff.mp h
  refine ⟨xs.take i, xs.drop (i + 1), by simp, ?_⟩
  rw [List.length_take]
  omega

theorem Network.step_cases (n : Network) (a : NetworkAction Env) :
    NetworkStep ids hardhat self fromExternal n a (n.step ids hardhat self fromExternal a)
      (n.sent hardhat a) (n.resumed a) := by
  cases a with
  | start op => exact .started op
  | serve i fate env =>
    cases hi : n.calls[i]? with
    | none =>
      simp only [step, sent, resumed, hi]
      exact .idle (by simp [progresses, hi])
    | some w =>
      obtain ⟨c, reply⟩ := w
      cases reply with
      | some reply =>
        simp only [step, sent, resumed, hi]
        exact .idle (by simp [progresses, hi])
      | none =>
        simp only [step, sent, resumed, hi]
        obtain ⟨before, after, hcalls, rfl⟩ := split_at hi
        have hset : n.calls.set before.length ⟨c, some (hardhat.settle fate n.chain c).2⟩ =
            before ++ ⟨c, some (hardhat.settle fate n.chain c).2⟩ :: after := by
          simp [hcalls]
        rw [hset]
        exact .served before c after fate env hcalls
  | deliver i =>
    cases hi : n.calls[i]? with
    | none =>
      simp only [step, sent, resumed, hi]
      exact .idle (by simp [progresses, hi])
    | some w =>
      obtain ⟨c, reply⟩ := w
      cases reply with
      | none =>
        simp only [step, sent, resumed, hi]
        exact .idle (by simp [progresses, hi])
      | some reply =>
        simp only [step, sent, resumed, hi]
        obtain ⟨before, after, hcalls, rfl⟩ := split_at hi
        have htake : n.calls.take before.length = before := by simp [hcalls]
        have hdrop : n.calls.drop (before.length + 1) = after := by simp [hcalls]
        rw [htake, hdrop]
        exact .delivered before c reply after hcalls
  | external tx => exact .external tx

/-- Settling an await changes the contract as the transaction that it sends does. -/
theorem Hardhat.settle_chain (fate : Fate) (env : Env) (chain : ChainState) (c : Suspended) :
    (hardhat.settle fate chain c).1 =
      run (attempt self fromExternal) chain (hardhat.sends fate env c).toList := by
  cases c with
  | startingCollection redispatchEvent =>
    simp only [settle, serve, startCollection, transact, sends]
    cases fate <;> cases hstart : chain.collector.startCollection hardhat.wallet <;>
      simp [Fate.lands, attempt, execute, hstart, Except.map]
  | endingCollection state =>
    simp only [settle, serve, endCollection, transact, sends]
    cases fate <;> cases hend : chain.collector.endCollection hardhat.wallet <;>
      simp [Fate.lands, attempt, execute, hend, Except.map]
  | collectingData state => exact (hardhat.getCollectedData_spec fate ⟨chain, 0⟩).1
  | submittingData auctionId valid hv p rest =>
    exact (hardhat.submitData_spec fate ⟨chain, 0⟩ _ _ _).1
  | _ => rfl

variable {hardhat} in
theorem Hardhat.settle_settledBy (fate : Fate) (chain : ChainState) (c : Suspended) :
    c.SettledBy (hardhat.settle fate chain c).2 :=
  hardhat.serve_settledBy (fun _ => fate) ⟨chain, 0⟩ c

/-- The contract of the network is that of the transactions sent to it. -/
theorem Network.step_chain (n : Network) (a : NetworkAction Env) :
    (n.step ids hardhat self fromExternal a).chain =
      chainRun self fromExternal n.chain (n.sent hardhat a) := by
  have hstep := n.step_cases ids hardhat self fromExternal a
  generalize n.step ids hardhat self fromExternal a = n', n.sent hardhat a = txs,
    n.resumed a = as at hstep ⊢
  cases hstep with
  | idle => rfl
  | started op => rfl
  | served before c after fate env hcalls =>
    exact hardhat.settle_chain self fromExternal fate env n.chain c
  | delivered before c reply after hcalls => rfl
  | external tx => rfl

/-- The history of a run's transactions, action by action. -/
theorem Network.history_sent (n : Network) (actions : List (NetworkAction Env)) :
    emitted (Network.step ids hardhat self fromExternal)
        (fun n a => history self fromExternal n.chain (n.sent hardhat a)) n actions =
      history self fromExternal n.chain (emitted (Network.step ids hardhat self fromExternal)
        (fun n a => n.sent hardhat a) n actions) := by
  induction actions generalizing n with
  | nil => rfl
  | cons a actions ih =>
    simp only [emitted, ih]
    rw [history, history, history, emitted_append, n.step_chain ids hardhat self fromExternal a]

/-- The interleaving that the network shows the page. -/
structure Network.Shows (n : Network) (s : System) : Prop where
  frontend : s.frontend = n.frontend
  calls : s.calls.map Call.suspended = n.calls.map Waiting.suspended

variable {ids hardhat self fromExternal} in
theorem Network.Shows.step {n : Network} {s : System} (h : n.Shows s) (a : NetworkAction Env) :
    (n.step ids hardhat self fromExternal a).Shows
      (run (System.step ids) s (n.resumed a)) := by
  have hstep := n.step_cases ids hardhat self fromExternal a
  generalize n.step ids hardhat self fromExternal a = n', n.sent hardhat a = txs,
    n.resumed a = as at hstep ⊢
  cases hstep with
  | idle => exact h
  | started op =>
    constructor
    · simp only [run_cons, run_nil, System.step, h.frontend]
    · simp only [run_cons, run_nil, System.step, h.frontend, List.map_append, h.calls]
      cases (n.frontend.begin ids op).2 <;> rfl
  | served before c after fate env hcalls =>
    refine ⟨h.frontend, ?_⟩
    rw [run_nil, h.calls, hcalls]
    simp
  | delivered before c reply after hcalls =>
    have hmap := h.calls
    rw [hcalls, List.map_append, List.map_cons] at hmap
    obtain ⟨before', rest, hs, hbefore, hrest⟩ := List.map_eq_append_iff.mp hmap
    obtain ⟨call, after', rfl, hcall, hafter⟩ := List.map_eq_cons_iff.mp hrest
    have hlen : before.length = before'.length := by
      simpa using congrArg List.length hbefore.symm
    have hi : s.calls[before.length]? = some call := by simp [hs, hlen]
    have htake : s.calls.take before.length = before' := by simp [hs, hlen]
    have hdrop : s.calls.drop (before.length + 1) = after' := by simp [hs, hlen]
    have hcall' : call.suspended = c := hcall
    constructor
    · simp only [run_cons, run_nil, System.step, hi, h.frontend, hcall']
    · simp only [run_cons, run_nil, System.step, hi, h.frontend, hcall', htake, hdrop,
        List.map_append, hbefore, hafter]
      cases (n.frontend.resume ids c reply).2 <;> rfl
  | external tx => exact ⟨h.frontend, h.calls⟩

/-- The transactions of a run of the network. -/
def Network.transactions (n : Network) (actions : List (NetworkAction Env)) : List (Tx Env) :=
  emitted (Network.step ids hardhat self fromExternal) (fun n a => n.sent hardhat a) n actions

/-- The interleaving of a run of the network. -/
def Network.interleaving (n : Network) (actions : List (NetworkAction Env)) : List Action :=
  emitted (Network.step ids hardhat self fromExternal) Network.resumed n actions

/-- A run of the network is a history of the contract. -/
theorem Network.run_chain (n : Network) (actions : List (NetworkAction Env)) :
    (run (Network.step ids hardhat self fromExternal) n actions).chain =
      chainRun self fromExternal n.chain
        (n.transactions ids hardhat self fromExternal actions) := by
  unfold transactions
  apply run_simulation (R := fun (n : Network) chain => n.chain = chain)
  · rintro n chain a rfl
    exact n.step_chain ids hardhat self fromExternal a
  · rfl

/-- A run of the network is an interleaving of the page. -/
theorem Network.run_shows {n : Network} {s : System} (h : n.Shows s)
    (actions : List (NetworkAction Env)) :
    (run (Network.step ids hardhat self fromExternal) n actions).Shows
      (run (System.step ids) s (n.interleaving ids hardhat self fromExternal actions)) := by
  unfold interleaving
  apply run_simulation (R := fun (n : Network) s => n.Shows s)
  · exact fun n s a h => h.step a
  · exact h

end Steps

end GridFlex
