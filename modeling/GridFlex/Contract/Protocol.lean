import GridFlex.Contract.History
import GridFlex.Lib.Language

/-! What the contract is for, as a protocol of rounds: a round is opened, takes bids, is closed and
has outcomes announced that fit its bids. The contract lets through exactly the histories of this
protocol. -/
namespace GridFlex
open Checked Language Transition

/-- Is the current round open, and how many bids has it? -/
structure Round where
  collecting : Bool
  bids : ℕ
  deriving DecidableEq, Repr

/-- The moves of the protocol. A bid needs two handles that the coprocessor verifies. -/
inductive Round.Step (verified : Euint32 → Euint32 → Prop) : Round → Accepted → Round → Prop where
  | start (r : Round) : Round.Step verified r .startCollection ⟨true, 0⟩
  | submit (bids : ℕ) (sender : Address) (price quantity : Euint32)
      (h : verified price quantity) :
      Round.Step verified ⟨true, bids⟩ (.submitData sender price quantity) ⟨true, bids + 1⟩
  | close (bids : ℕ) : Round.Step verified ⟨true, bids⟩ .endCollection ⟨false, bids⟩
  | announce (resolution : List Bool) :
      Round.Step verified ⟨false, resolution.length⟩ (.broadcast resolution)
        ⟨false, resolution.length⟩

/-- The round that the storage is in. -/
structure InRound (deployer : Address) (c : ChainState) (r : Round) : Prop where
  owner : c.collector.owner = deployer
  collecting : c.collector.collecting = r.collecting
  bids : c.collector.bidprice.length = r.bids

section Calls

variable {Env : Type} (self : Address)
  (fromExternal : Env → ExternalEuint32 → Bytes → Except String Euint32)

/-- Some environment and proofs make the coprocessor return these two handles. -/
def Verified (price quantity : Euint32) : Prop :=
  ∃ (env : Env) (_price : ExternalEuint32) (priceProof : Bytes) (_quantity : ExternalEuint32)
    (quantityProof : Bytes), fromExternal env _price priceProof = .ok price ∧
      fromExternal env _quantity quantityProof = .ok quantity

variable {self fromExternal} {deployer : Address} {c : ChainState} {r r' : Round}

theorem attempt_of_ok {c' : ChainState} {tx : Tx Env}
    (h : execute self fromExternal c tx = .ok c') : attempt self fromExternal c tx = c' := by
  simp only [attempt, h]

/-- A bid that goes through is one of two verified handles. -/
theorem accepted_verified {tx : Tx Env} {sender : Address} {price quantity : Euint32}
    (h : .submitData sender price quantity ∈ accepted self fromExternal c tx) :
    Verified fromExternal price quantity := by
  obtain ⟨txSender, env, call⟩ := tx
  unfold accepted at h
  cases hx : execute self fromExternal c ⟨txSender, env, call⟩ with
  | error message => simp [hx] at h
  | ok c' =>
    cases call with
    | submitData _price priceProof _quantity quantityProof =>
      obtain ⟨-, p, hp, q, hq, -⟩ := submitData_ok.mp hx
      obtain ⟨-, rfl, rfl⟩ : sender = txSender ∧ price = p ∧ quantity = q := by
        simpa [hx, hp, hq] using h
      exact ⟨env, _price, priceProof, _quantity, quantityProof, hp, hq⟩
    | _ => simp [hx] at h

/-- A call that goes through is a move of the protocol. -/
theorem InRound.sound (h : InRound deployer c r) (tx : Tx Env) :
    ∃ r', Reads (Round.Step (Verified fromExternal)) r (accepted self fromExternal c tx) r' ∧
      InRound deployer (attempt self fromExternal c tx) r' := by
  have hverified : ∀ sender price quantity, .submitData sender price quantity ∈
      accepted self fromExternal c tx → Verified fromExternal price quantity :=
    fun _ _ _ => accepted_verified
  have he := attempt_effect self fromExternal c tx
  generalize attempt self fromExternal c tx = c', accepted self fromExternal c tx = new
    at he hverified ⊢
  obtain ⟨collecting, bids⟩ := r
  obtain ⟨howner, hcollecting, hbids⟩ := h
  dsimp only at hcollecting hbids
  cases he with
  | reverted => exact ⟨_, .nil _, howner, hcollecting, hbids⟩
  | started hcall hsender => exact ⟨_, .singleton (.start _), howner, rfl, rfl⟩
  | submitted price quantity hopen =>
    obtain rfl : true = collecting := hopen.symm.trans hcollecting
    have hbid := hverified tx.sender price quantity List.mem_cons_self
    refine ⟨_, .singleton (.submit bids tx.sender price quantity hbid), howner, hopen, ?_⟩
    simp [FHEDataCollector.push, hbids]
  | ended hcall hsender hopen =>
    obtain rfl : true = collecting := hopen.symm.trans hcollecting
    exact ⟨_, .singleton (.close bids), howner, rfl, hbids⟩
  | resolved resolution hcall hsender hclosed hlen =>
    obtain rfl : false = collecting := hclosed.symm.trans hcollecting
    obtain rfl : resolution.length = bids := hlen.trans hbids
    exact ⟨_, .singleton (.announce resolution), howner, hclosed, hbids⟩

/-- The owner's calls and anyone's bids make every move of the protocol. -/
theorem InRound.complete (env : Env) (h : InRound deployer c r) {entry : Accepted}
    (hstep : Round.Step (Verified fromExternal) r entry r') :
    ∃ tx, accepted self fromExternal c tx = [entry] ∧
      InRound deployer (attempt self fromExternal c tx) r' := by
  obtain ⟨howner, hcollecting, hbids⟩ := h
  cases hstep with
  | start =>
    have hok := FHEDataCollector.startCollection_ok.mpr ⟨howner.symm, rfl⟩
    have hx : execute self fromExternal c ⟨deployer, env, .startCollection⟩ = .ok _ :=
      map_ok.mpr ⟨_, hok, rfl⟩
    refine ⟨⟨deployer, env, .startCollection⟩, by simp only [accepted, hx], ?_⟩
    rw [attempt_of_ok hx]
    exact ⟨howner, rfl, rfl⟩
  | submit bids sender price quantity hverified =>
    obtain ⟨env, _price, priceProof, _quantity, quantityProof, hp, hq⟩ := hverified
    have hx : execute self fromExternal c
        ⟨sender, env, .submitData _price priceProof _quantity quantityProof⟩ = .ok _ :=
      submitData_ok.mpr ⟨hcollecting, price, hp, quantity, hq, rfl⟩
    refine ⟨⟨sender, env, .submitData _price priceProof _quantity quantityProof⟩,
      by simp only [accepted, hx, hp, hq], ?_⟩
    rw [attempt_of_ok hx]
    refine ⟨howner, hcollecting, ?_⟩
    simp [FHEDataCollector.push, hbids]
  | close =>
    have hok := FHEDataCollector.endCollection_ok.mpr ⟨howner.symm, hcollecting, rfl⟩
    have hx : execute self fromExternal c ⟨deployer, env, .endCollection⟩ = .ok _ :=
      map_ok.mpr ⟨_, hok, rfl⟩
    refine ⟨⟨deployer, env, .endCollection⟩, by simp only [accepted, hx], ?_⟩
    rw [attempt_of_ok hx]
    exact ⟨howner, rfl, hbids⟩
  | announce resolution =>
    have hok := FHEDataCollector.broadcast_ok.mpr ⟨howner.symm, hcollecting, hbids.symm, rfl⟩
    have hx : execute self fromExternal c ⟨deployer, env, .broadcast resolution⟩ = .ok _ :=
      map_ok.mpr ⟨_, hok, rfl⟩
    refine ⟨⟨deployer, env, .broadcast resolution⟩, by simp only [accepted, hx], ?_⟩
    rw [attempt_of_ok hx]
    exact ⟨howner, hcollecting, hbids⟩

variable (self fromExternal)

/-- The histories of the contract, over all transactions of all senders, are the words of the
protocol whose bids can be verified. -/
theorem protocol_exact (env : Env) (deployer : Address) (grants : List (Euint32 × Address)) :
    Set.range (history self fromExternal (deployed deployer grants)) =
      words (Round.Step (Verified fromExternal)) ⟨false, 0⟩ := by
  have h : Implements (Round.Step (Verified fromExternal)) (attempt self fromExternal)
      (accepted self fromExternal) (InRound deployer) :=
    ⟨fun c r tx hr => hr.sound tx, fun c r entry r' hr hstep => hr.complete env hstep⟩
  exact h.range_emitted ⟨rfl, rfl, rfl⟩

end Calls

end GridFlex
