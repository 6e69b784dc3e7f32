import GridFlex.Market.Network

/-! What others do to the contract does not reach the page: of the collected data it reads only
that there are some, and the phase is the owner's. -/
namespace GridFlex
open Transition

/-- The reply without the numbers that were collected. -/
def Reply.blind : Reply → Reply
  | .collected _ _ => .collected [] []
  | reply => reply

def Waiting.blind (w : Waiting) : Waiting := ⟨w.suspended, w.reply.map Reply.blind⟩

variable {ids : ℕ → IdSource} {hardhat : Hardhat}

/-- The page goes on in the same way, whatever was collected. -/
theorem resume_blind (f : Frontend) (c : Suspended) (reply : Reply) :
    f.resume ids c reply.blind = f.resume ids c reply := by
  cases reply with
  | collected prices quantities => cases c <;> rfl
  | _ => rfl

/-- The same owner and the same phase. -/
structure SamePhase (c c' : ChainState) : Prop where
  owner : c.collector.owner = c'.collector.owner
  collecting : c.collector.collecting = c'.collector.collecting

/-- Two transactions that both go through to the same phase, or both revert. -/
theorem transact_samePhase {c c' : ChainState} (h : SamePhase c c') (fate : Fate)
    (attempted attempted' : Except String FHEDataCollector)
    (ha : (∃ message message', attempted = .error message ∧ attempted' = .error message') ∨
      ∃ s s', attempted = .ok s ∧ attempted' = .ok s' ∧ s.owner = s'.owner ∧
        s.collecting = s'.collecting) :
    SamePhase (Hardhat.transact fate ⟨c, 0⟩ attempted).1.chain
        (Hardhat.transact fate ⟨c', 0⟩ attempted').1.chain ∧
      (Hardhat.transact fate ⟨c, 0⟩ attempted).2 =
        (Hardhat.transact fate ⟨c', 0⟩ attempted').2 := by
  rcases ha with ⟨message, message', rfl, rfl⟩ | ⟨s, s', rfl, rfl, howner, hcollecting⟩
  · exact ⟨h, rfl⟩
  · cases fate with
    | confirms receipt => exact ⟨⟨howner, hcollecting⟩, rfl⟩
    | losesReceipt => exact ⟨⟨howner, hcollecting⟩, rfl⟩
    | drops => exact ⟨h, rfl⟩

theorem submitData_samePhase {c c' : ChainState} (h : SamePhase c c') (fate : Fate)
    (price quantity : ℚ) (participantId : String) :
    (hardhat.submitData fate ⟨c, 0⟩ price quantity participantId).2 =
      (hardhat.submitData fate ⟨c', 0⟩ price quantity participantId).2 := by
  simp only [Hardhat.submitData, h.collecting]
  split
  · split <;> rfl
  · rfl

theorem settle_samePhase {c c' : ChainState} (h : SamePhase c c') (fate : Fate) (k : Suspended) :
    SamePhase (hardhat.settle fate c k).1 (hardhat.settle fate c' k).1 ∧
      (hardhat.settle fate c k).2.blind = (hardhat.settle fate c' k).2.blind := by
  have howner := h.owner
  have hcollecting := h.collecting
  cases k with
  | startingCollection redispatchEvent =>
    have ht := transact_samePhase h fate (c.collector.startCollection hardhat.wallet)
      (c'.collector.startCollection hardhat.wallet) ?_
    · exact ⟨ht.1, congrArg Reply.blind ht.2⟩
    · simp only [FHEDataCollector.startCollection, FHEDataCollector.onlyOwner, howner]
      split_ifs
      · exact Or.inr ⟨_, _, rfl, rfl, rfl, rfl⟩
      · exact Or.inl ⟨_, _, rfl, rfl⟩
  | endingCollection state =>
    have ht := transact_samePhase h fate (c.collector.endCollection hardhat.wallet)
      (c'.collector.endCollection hardhat.wallet) ?_
    · exact ⟨ht.1, congrArg Reply.blind ht.2⟩
    · simp only [FHEDataCollector.endCollection, FHEDataCollector.onlyOwner,
        FHEDataCollector.isCollecting, howner, hcollecting]
      split_ifs
      · exact Or.inr ⟨_, _, rfl, rfl, rfl, rfl⟩
      · exact Or.inl ⟨_, _, rfl, rfl⟩
      · exact Or.inl ⟨_, _, rfl, rfl⟩
      · exact Or.inl ⟨_, _, rfl, rfl⟩
  | collectingData state =>
    simp only [Hardhat.settle, Hardhat.serve, Hardhat.getCollectedData,
      FHEDataCollector.getCollectedData, FHEDataCollector.onlyOwner, howner]
    split_ifs <;> cases fate <;> exact ⟨h, rfl⟩
  | submittingData auctionId valid hv p rest =>
    have hsame : SamePhase (hardhat.submitData fate ⟨c, 0⟩ p.pricePerMW p.powerMW p.id).1.chain
        (hardhat.submitData fate ⟨c', 0⟩ p.pricePerMW p.powerMW p.id).1.chain := by
      rw [(hardhat.submitData_spec fate ⟨c, 0⟩ _ _ _).1,
        (hardhat.submitData_spec fate ⟨c', 0⟩ _ _ _).1]
      exact h
    exact ⟨hsame, congrArg Reply.blind (submitData_samePhase h fate _ _ _)⟩
  | _ => exact ⟨h, rfl⟩

section Steps

variable {Env : Type} {self : Address}
  {fromExternal : Env → ExternalEuint32 → Bytes → Except String Euint32}

/-- Whether bids are collected after a transaction, from whether they were before it. -/
def phaseAfter (owner : Address) (collecting : Bool) (tx : Tx Env) : Bool :=
  match tx.call with
  | .startCollection => if tx.sender = owner then true else collecting
  | .endCollection => if tx.sender = owner then false else collecting
  | _ => collecting

theorem Effect.owner_eq {c c' : ChainState} {tx : Tx Env} {new : List Accepted}
    (he : Effect self c tx c' new) : c'.collector.owner = c.collector.owner := by
  cases he <;> rfl

theorem attempt_phase (c : ChainState) (tx : Tx Env) :
    (attempt self fromExternal c tx).collector.collecting =
      phaseAfter c.collector.owner c.collector.collecting tx := by
  obtain ⟨sender, env, call⟩ := tx
  cases call with
  | startCollection =>
    by_cases hs : sender = c.collector.owner
    · simp [attempt, execute, FHEDataCollector.startCollection, FHEDataCollector.onlyOwner, hs,
        bind, Except.bind, pure, Except.pure, Except.map, phaseAfter]
    · simp [attempt, execute, FHEDataCollector.startCollection, FHEDataCollector.onlyOwner, hs,
        bind, Except.bind, Except.map, phaseAfter]
  | endCollection =>
    by_cases hs : sender = c.collector.owner
    · cases hc : c.collector.collecting with
      | true =>
        simp [attempt, execute, FHEDataCollector.endCollection, FHEDataCollector.onlyOwner,
          FHEDataCollector.isCollecting, hs, hc, bind, Except.bind, pure, Except.pure, Except.map,
          phaseAfter]
      | false =>
        simp [attempt, execute, FHEDataCollector.endCollection, FHEDataCollector.onlyOwner,
          FHEDataCollector.isCollecting, hs, hc, bind, Except.bind, Except.map, phaseAfter]
    · simp [attempt, execute, FHEDataCollector.endCollection, FHEDataCollector.onlyOwner, hs,
        bind, Except.bind, Except.map, phaseAfter]
  | submitData price priceProof quantity quantityProof =>
    have he := attempt_effect self fromExternal c
      ⟨sender, env, .submitData price priceProof quantity quantityProof⟩
    generalize attempt self fromExternal c _ = c', accepted self fromExternal c _ = new at he ⊢
    cases he with
    | reverted | submitted => rfl
    | started hcall | ended hcall | resolved _ hcall => cases hcall
  | broadcast resolution =>
    have he := attempt_effect self fromExternal c ⟨sender, env, .broadcast resolution⟩
    generalize attempt self fromExternal c _ = c', accepted self fromExternal c _ = new at he ⊢
    cases he with
    | reverted | submitted | resolved => rfl
    | started hcall | ended hcall => cases hcall

theorem attempt_owner (c : ChainState) (tx : Tx Env) :
    (attempt self fromExternal c tx).collector.owner = c.collector.owner :=
  (attempt_effect self fromExternal c tx).owner_eq

theorem SamePhase.attempt {c c' : ChainState} (h : SamePhase c c') (tx : Tx Env) :
    SamePhase (attempt self fromExternal c tx) (attempt self fromExternal c' tx) := by
  constructor
  · rw [attempt_owner, attempt_owner, h.owner]
  · rw [attempt_phase, attempt_phase, h.owner, h.collecting]

/-- A stranger's transaction does not change the phase. -/
theorem SamePhase.attempt_outsider {c c' : ChainState} (h : SamePhase c c') {tx : Tx Env}
    (hs : tx.sender ≠ c.collector.owner) :
    SamePhase (GridFlex.attempt self fromExternal c tx) c' := by
  constructor
  · rw [attempt_owner, h.owner]
  · rw [attempt_phase, ← h.collecting]
    unfold phaseAfter
    split <;> simp [hs]

/-- Two networks that the page cannot tell apart. -/
structure Alike (deployer : Address) (n n' : Network) : Prop where
  frontend : n.frontend = n'.frontend
  calls : n.calls.map Waiting.blind = n'.calls.map Waiting.blind
  phase : SamePhase n.chain n'.chain
  owner : n.chain.collector.owner = deployer

/-- Is the action one of the page, the node or the deployer? -/
def NetworkAction.insider (deployer : Address) : NetworkAction Env → Bool
  | .external tx => decide (tx.sender = deployer)
  | _ => true

/-- Both networks have the same call at a position, up to the data that it goes on with. -/
theorem Alike.call_at {deployer : Address} {n n' : Network} (h : Alike deployer n n') (i : ℕ) :
    n.calls[i]?.map Waiting.blind = n'.calls[i]?.map Waiting.blind := by
  rw [← List.getElem?_map, ← List.getElem?_map, h.calls]

/-- The same calls wait for the node on both sides. -/
theorem Alike.awaiting {deployer : Address} {n n' : Network} (h : Alike deployer n n') (i : ℕ)
    (c : Suspended) : n.calls[i]? = some ⟨c, none⟩ ↔ n'.calls[i]? = some ⟨c, none⟩ := by
  have hblind (call : Option Waiting) :
      call = some ⟨c, none⟩ ↔ call.map Waiting.blind = some ⟨c, none⟩ := by
    cases call with
    | none => simp
    | some w =>
      obtain ⟨c', reply⟩ := w
      simp [Waiting.blind]
  rw [hblind n.calls[i]?, hblind n'.calls[i]?, h.call_at i]

/-- There is nothing to serve where no call waits for the node. -/
theorem Network.serve_idle {n : Network} {i : ℕ} (h : ∀ c, n.calls[i]? ≠ some ⟨c, none⟩)
    (fate : Fate) (env : Env) :
    n.step ids hardhat self fromExternal (.serve i fate env) = n := by
  unfold Network.step
  cases hi : n.calls[i]? with
  | none => simp only [hi]
  | some w =>
    obtain ⟨c, reply⟩ := w
    cases reply with
    | none => exact absurd hi (h c)
    | some reply => simp only [hi]

theorem Alike.serve {deployer : Address} {n n' : Network} (h : Alike deployer n n') (i : ℕ)
    (fate : Fate) (env : Env) :
    Alike deployer (n.step ids hardhat self fromExternal (.serve i fate env))
      (n'.step ids hardhat self fromExternal (.serve i fate env)) := by
  by_cases hawait : ∃ c, n.calls[i]? = some ⟨c, none⟩
  · obtain ⟨c, hc⟩ := hawait
    have hc' := (h.awaiting i c).mp hc
    obtain ⟨hphase, hblind⟩ : SamePhase (hardhat.settle fate n.chain c).1 _ ∧ _ :=
      settle_samePhase h.phase fate c
    refine ⟨?_, ?_, ?_, ?_⟩
    · simpa only [Network.step, hc, hc'] using h.frontend
    · simp only [Network.step, hc, hc', List.map_set, h.calls, Waiting.blind, Option.map_some,
        hblind]
    · simpa only [Network.step, hc, hc'] using hphase
    · simp only [Network.step, hc]
      exact (serve_owner (fun _ => fate) ⟨n.chain, 0⟩ c).trans h.owner
  · have hidle : ∀ c, n.calls[i]? ≠ some ⟨c, none⟩ := not_exists.mp hawait
    have hidle' : ∀ c, n'.calls[i]? ≠ some ⟨c, none⟩ :=
      fun c hc => hidle c ((h.awaiting i c).mpr hc)
    rw [Network.serve_idle hidle, Network.serve_idle hidle']
    exact h

theorem Alike.deliver {deployer : Address} {n n' : Network} (h : Alike deployer n n') (i : ℕ) :
    Alike deployer (n.step ids hardhat self fromExternal (.deliver i : NetworkAction Env))
      (n'.step ids hardhat self fromExternal (.deliver i : NetworkAction Env)) := by
  have hi := h.call_at i
  cases hc : n.calls[i]? with
  | none =>
    rw [hc, Option.map_none] at hi
    have hc' : n'.calls[i]? = none := Option.map_eq_none_iff.mp hi.symm
    simpa only [Network.step, hc, hc'] using h
  | some w =>
    rw [hc, Option.map_some] at hi
    obtain ⟨w', hc', hw⟩ := Option.map_eq_some_iff.mp hi.symm
    obtain ⟨c, reply⟩ := w
    obtain ⟨c', reply'⟩ := w'
    obtain ⟨rfl, hreply⟩ := Waiting.mk.inj hw
    cases reply with
    | none =>
      obtain rfl := Option.map_eq_none_iff.mp hreply
      simpa only [Network.step, hc, hc'] using h
    | some reply =>
      obtain ⟨reply', rfl, hblind⟩ := Option.map_eq_some_iff.mp hreply
      have hresume : n.frontend.resume ids c' reply = n'.frontend.resume ids c' reply' := by
        rw [← resume_blind, ← hblind, resume_blind, h.frontend]
      refine ⟨?_, ?_, ?_, ?_⟩
      · simp only [Network.step, hc, hc', hresume]
      · simp only [Network.step, hc, hc', hresume, List.map_append, List.map_take, List.map_drop,
          h.calls]
      · simpa only [Network.step, hc, hc'] using h.phase
      · simpa only [Network.step, hc] using h.owner

theorem Alike.step {deployer : Address} {n n' : Network} (h : Alike deployer n n')
    (a : NetworkAction Env) :
    Alike deployer (n.step ids hardhat self fromExternal a)
      (n'.step ids hardhat self fromExternal a) := by
  cases a with
  | start op =>
    refine ⟨by simp only [Network.step, h.frontend], ?_, h.phase, h.owner⟩
    simp only [Network.step, h.frontend, List.map_append, h.calls]
  | serve i fate env => exact h.serve i fate env
  | deliver i => exact h.deliver i
  | external tx =>
    exact ⟨h.frontend, h.calls, h.phase.attempt tx, (attempt_owner _ _).trans h.owner⟩

/-- An outsider's action keeps one network like the other, which does not take it. -/
theorem Alike.step_outsider {deployer : Address} {n n' : Network} (h : Alike deployer n n')
    {a : NetworkAction Env} (ha : a.insider deployer = false) :
    Alike deployer (n.step ids hardhat self fromExternal a) n' := by
  cases a with
  | external tx =>
    have hs : tx.sender ≠ n.chain.collector.owner := by
      rw [h.owner]
      simpa [NetworkAction.insider] using ha
    exact ⟨h.frontend, h.calls, h.phase.attempt_outsider hs, (attempt_owner _ _).trans h.owner⟩
  | _ => cases ha

variable (ids hardhat self fromExternal)

/-- Leave the transactions of all others out of a run, whatever they submit, and the page and
the contract's phase after it are the same, and so is where every call stands. -/
theorem outsiders_have_no_influence (deployer : Address) (grants : List (Euint32 × Address))
    (redispatchEvent : RedispatchEvent) (actions : List (NetworkAction Env)) :
    let n₀ := Network.initial deployer grants redispatchEvent
    let n := run (Network.step ids hardhat self fromExternal) n₀ actions
    let n' := run (Network.step ids hardhat self fromExternal) n₀
      (actions.filter (NetworkAction.insider deployer))
    n.frontend = n'.frontend ∧
      n.calls.map Waiting.suspended = n'.calls.map Waiting.suspended ∧
      n.chain.collector.owner = n'.chain.collector.owner ∧
      n.chain.collector.collecting = n'.chain.collector.collecting := by
  intro n₀ n n'
  have h : Alike deployer n n' := by
    have hfilter : emitted (Network.step ids hardhat self fromExternal)
        (fun _ a => if a.insider deployer then [a] else []) n₀ actions =
          actions.filter (NetworkAction.insider deployer) := emitted_filter _ n₀ actions
    show Alike deployer n (run _ n₀ (actions.filter _))
    rw [← hfilter]
    apply run_simulation (R := Alike deployer)
    · intro n n' a h
      cases ha : a.insider deployer with
      | true => simpa [ha] using h.step a
      | false => simpa [ha] using h.step_outsider ha
    · exact ⟨rfl, rfl, ⟨rfl, rfl⟩, rfl⟩
  refine ⟨h.frontend, ?_, h.phase.owner, h.phase.collecting⟩
  have hmap := congrArg (List.map Waiting.suspended) h.calls
  simpa [Waiting.blind, Function.comp_def] using hmap

end Steps

end GridFlex
