import GridFlex.Market.Network

/-! Where the contents of the contract come from. The page sends it the starts and ends of
collections and nothing else: what is stored there was submitted past the page. -/
namespace GridFlex
open Transition Accepted

namespace Accepted

theorem currentRound_sublist (past : List Accepted) : (currentRound past).Sublist past := by
  have h : (past.reverse.takeWhile (· ≠ .startCollection)).Sublist past.reverse :=
    List.takeWhile_sublist _
  simpa [currentRound] using h.reverse

/-- A resolution that is announced has been broadcast. -/
theorem announced_mem {past : List Accepted} (h : announced past ≠ []) :
    .broadcast (announced past) ∈ past := by
  unfold announced at h ⊢
  cases hlast : ((currentRound past).filterMap broadcast?).getLast? with
  | none => simp [hlast] at h
  | some resolution =>
    obtain ⟨entry, hentry, hbroadcast⟩ := List.mem_filterMap.mp (List.mem_of_getLast? hlast)
    cases entry with
    | broadcast resolution' =>
      cases hbroadcast
      exact (currentRound_sublist past).subset hentry
    | _ => cases hbroadcast

end Accepted

variable {ids : ℕ → IdSource} {hardhat : Hardhat}

section Origins

variable {Env : Type} {self : Address}
  {fromExternal : Env → ExternalEuint32 → Bytes → Except String Euint32}

/-- The settled await of a call sends the start or the end of a collection, if anything. -/
theorem sends_phase {fate : Fate} {env : Env} {c : Suspended} {tx : Tx Env}
    (h : tx ∈ hardhat.sends fate env c) :
    tx.call = .startCollection ∨ tx.call = .endCollection := by
  cases c with
  | startingCollection =>
    simp only [Hardhat.sends] at h
    split at h
    · cases h
      exact Or.inl rfl
    · cases h
  | endingCollection =>
    simp only [Hardhat.sends] at h
    split at h
    · cases h
      exact Or.inr rfl
    · cases h
  | _ => cases h

theorem Network.sent_origin {n : Network} {a : NetworkAction Env} {tx : Tx Env}
    (h : tx ∈ n.sent hardhat a) :
    a = .external tx ∨ tx.call = .startCollection ∨ tx.call = .endCollection := by
  cases a with
  | start | deliver => cases h
  | serve i fate env =>
    simp only [sent] at h
    split at h
    · exact Or.inr (sends_phase (Option.mem_toList.mp h))
    · cases h
  | external tx' =>
    obtain rfl := List.mem_singleton.mp h
    exact Or.inl rfl

/-- An announcement that went through was made by the owner. -/
theorem broadcast_origin {c : ChainState} {tx : Tx Env} {resolution : List Bool}
    (h : .broadcast resolution ∈ accepted self fromExternal c tx) :
    tx.call = .broadcast resolution ∧ tx.sender = c.collector.owner := by
  have he := attempt_effect self fromExternal c tx
  generalize attempt self fromExternal c tx = c', accepted self fromExternal c tx = new at he h
  cases he with
  | resolved resolution' hcall howner =>
    obtain rfl : resolution = resolution' := by simpa using h
    exact ⟨hcall, howner⟩
  | _ => simp at h

variable (fromExternal)

/-- The bid that a transaction submits, when both handles are verified. -/
def Tx.submission? (tx : Tx Env) : Option (Address × Euint32 × Euint32) :=
  match tx.call with
  | .submitData _price priceProof _quantity quantityProof =>
      match fromExternal tx.env _price priceProof, fromExternal tx.env _quantity quantityProof with
      | .ok price, .ok quantity => some (tx.sender, price, quantity)
      | _, _ => none
  | _ => none

/-- The bid that is submitted past the page. -/
def NetworkAction.submission? : NetworkAction Env → Option (Address × Euint32 × Euint32)
  | .external tx => tx.submission? fromExternal
  | _ => none

variable {fromExternal}

theorem accepted_submissions (c : ChainState) (tx : Tx Env) :
    ((accepted self fromExternal c tx).filterMap Accepted.submission?).Sublist
      (tx.submission? fromExternal).toList := by
  unfold accepted Tx.submission?
  cases execute self fromExternal c tx with
  | error message => exact List.nil_sublist _
  | ok c' =>
    cases tx.call with
    | submitData _price priceProof _quantity quantityProof =>
      dsimp only
      cases fromExternal tx.env _price priceProof <;>
        cases fromExternal tx.env _quantity quantityProof <;> exact List.Sublist.refl _
    | _ => exact List.Sublist.refl _

theorem sent_submissions (n : Network) (a : NetworkAction Env) :
    (n.sent hardhat a).filterMap (Tx.submission? fromExternal) =
      (a.submission? fromExternal).toList := by
  cases a with
  | start | deliver => rfl
  | serve i fate env =>
    show _ = []
    rw [List.filterMap_eq_nil_iff]
    intro tx htx
    rcases Network.sent_origin htx with ⟨⟨⟩⟩ | hcall | hcall
    · simp [Tx.submission?, hcall]
    · simp [Tx.submission?, hcall]
  | external tx =>
    simp only [Network.sent, NetworkAction.submission?]
    cases h : tx.submission? fromExternal <;> simp [h]

end Origins

section Runs

variable {Env : Type} (ids : ℕ → IdSource) (hardhat : Hardhat) (self : Address)
  (fromExternal : Env → ExternalEuint32 → Bytes → Except String Euint32)

/-- The submissions that go through are among those made past the page, in their order. -/
theorem Network.history_submissions (n : Network) (actions : List (NetworkAction Env)) :
    ((history self fromExternal n.chain
      (n.transactions ids hardhat self fromExternal actions)).filterMap
        Accepted.submission?).Sublist
      (actions.filterMap (NetworkAction.submission? fromExternal)) := by
  unfold transactions
  rw [← n.history_sent]
  apply emitted_sublist
  intro n a
  have hsent : (n.sent hardhat a).filterMap (Tx.submission? fromExternal) =
      (a.submission? fromExternal).toList := sent_submissions n a
  rw [← hsent]
  exact emitted_sublist (fun c tx => accepted_submissions c tx) n.chain _

theorem Network.transactions_origin {n : Network} {actions : List (NetworkAction Env)} {tx : Tx Env}
    (h : tx ∈ n.transactions ids hardhat self fromExternal actions) :
    .external tx ∈ actions ∨ tx.call = .startCollection ∨ tx.call = .endCollection := by
  obtain ⟨before, a, after, rfl, htx⟩ := mem_emitted h
  rcases sent_origin htx with rfl | hcall
  · exact Or.inl (by simp)
  · exact Or.inr hcall

/-- What the contract holds was put there past the page: its bids are submissions of others, each
at most once and in order, and its resolution is one that the deployer announced. -/
structure FromOutside (deployer : Address) (actions : List (NetworkAction Env))
    (c : FHEDataCollector) : Prop where
  bids : ∃ submitted : List (Address × Euint32 × Euint32),
    submitted.Sublist (actions.filterMap (NetworkAction.submission? fromExternal)) ∧
      c.identity = submitted.map (·.1) ∧ c.bidprice = submitted.map (·.2.1) ∧
      c.bidquantity = submitted.map (·.2.2)
  resolution : c.resolution ≠ [] → ∃ tx : Tx Env, .external tx ∈ actions ∧
    tx.sender = deployer ∧ tx.call = .broadcast c.resolution

/-- In every run of the network, whatever bids the page broadcasts, the contract holds no bid and
no resolution of the page. -/
theorem contents_from_outside (deployer : Address) (grants : List (Euint32 × Address))
    (redispatchEvent : RedispatchEvent) (actions : List (NetworkAction Env)) :
    FromOutside fromExternal deployer actions
      (run (Network.step ids hardhat self fromExternal)
        (.initial deployer grants redispatchEvent) actions).chain.collector := by
  let n₀ := Network.initial deployer grants redispatchEvent
  let txs := n₀.transactions ids hardhat self fromExternal actions
  have hm := chainRun_matchesHistory self fromExternal deployer grants txs
  have hchain : (run (Network.step ids hardhat self fromExternal) n₀ actions).chain =
      chainRun self fromExternal (deployed deployer grants) txs :=
    n₀.run_chain ids hardhat self fromExternal actions
  rw [hchain]
  constructor
  · exact ⟨_, ((currentRound_sublist _).filterMap _).trans
      (n₀.history_submissions ids hardhat self fromExternal actions),
      hm.identity, hm.bidprice, hm.bidquantity⟩
  · intro hne
    rw [hm.resolution] at hne ⊢
    obtain ⟨before, tx, after, htxs, hentry⟩ := mem_emitted (announced_mem hne)
    obtain ⟨hcall, howner⟩ := broadcast_origin hentry
    have hmem : tx ∈ txs := htxs ▸ List.mem_append_right before List.mem_cons_self
    have hdeployer := (chainRun_matchesHistory self fromExternal deployer grants before).owner
    rcases Network.transactions_origin ids hardhat self fromExternal hmem with h | h | h
    · exact ⟨tx, h, howner.trans hdeployer, hcall⟩
    · simp [hcall] at h
    · simp [hcall] at h

end Runs

end GridFlex
