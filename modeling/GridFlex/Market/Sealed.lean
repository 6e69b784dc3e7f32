import GridFlex.Market.Outsiders

/-! Bids stay sealed. The contract stores handles, grants them and hands them out, but decides
nothing on them, and the page only asks whether there are any. So a run is the same run with every
handle, input and proof blanked out, once it is known which submissions verify. -/
namespace GridFlex
open Transition

def FHEDataCollector.blank (c : FHEDataCollector) : FHEDataCollector :=
  { c with bidprice := c.bidprice.map fun _ => 0, bidquantity := c.bidquantity.map fun _ => 0 }

/-- Who has been granted a handle, but not which. -/
def blankGrants (grants : List (Euint32 × Address)) : List (Euint32 × Address) :=
  grants.map fun grant => (0, grant.2)

/-- The chain with nothing in the place of its handles. -/
def ChainState.blank (c : ChainState) : ChainState := ⟨c.collector.blank, blankGrants c.grants⟩

/-- The inputs of a blank submission verify, or not, as the environment says. -/
def blankExternal (verified : Except String Unit) (_price : ExternalEuint32) (_proof : Bytes) :
    Except String Euint32 :=
  verified.map fun _ => 0

section Blank

variable {Env : Type}

/-- A submission without its inputs and proofs, but with the first error in verifying them. -/
def Tx.blank (fromExternal : Env → ExternalEuint32 → Bytes → Except String Euint32)
    (tx : Tx Env) : Tx (Except String Unit) :=
  match tx.call with
  | .submitData price priceProof quantity quantityProof =>
      let verified := do
        let _ ← fromExternal tx.env price priceProof
        let _ ← fromExternal tx.env quantity quantityProof
      ⟨tx.sender, verified, .submitData 0 [] 0 []⟩
  | call => ⟨tx.sender, .ok (), call⟩

def NetworkAction.blank (fromExternal : Env → ExternalEuint32 → Bytes → Except String Euint32) :
    NetworkAction Env → NetworkAction (Except String Unit)
  | .start op => .start op
  | .serve i fate _ => .serve i fate (.ok ())
  | .deliver i => .deliver i
  | .external tx => .external (tx.blank fromExternal)

/-- What the sender of a transaction is told: that it went through, or why it reverted. -/
def Network.verdicts (self : Address)
    (fromExternal : Env → ExternalEuint32 → Bytes → Except String Euint32) (n : Network) :
    NetworkAction Env → List (Except String Unit)
  | .external tx => [(execute self fromExternal n.chain tx).map fun _ => ()]
  | _ => []

variable {self : Address} {fromExternal : Env → ExternalEuint32 → Bytes → Except String Euint32}

theorem submitData_blank (c : ChainState) (sender : Address) (env : Env)
    (price quantity : ExternalEuint32) (priceProof quantityProof : Bytes) :
    (submitData self fromExternal c sender env price priceProof quantity quantityProof).map
        ChainState.blank =
      execute self blankExternal c.blank
        ((⟨sender, env, .submitData price priceProof quantity quantityProof⟩ : Tx Env).blank
          fromExternal) := by
  have hopen : c.blank.collector.isCollecting = c.collector.isCollecting := rfl
  simp only [submitData, execute, Tx.blank, hopen]
  cases c.collector.isCollecting with
  | error message => rfl
  | ok _ =>
    cases fromExternal env price priceProof with
    | error message => rfl
    | ok handle =>
      cases fromExternal env quantity quantityProof with
      | error message => rfl
      | ok handle' =>
        simp [bind, Except.bind, pure, Except.pure, Except.map, blankExternal, ChainState.allow,
          ChainState.blank, FHEDataCollector.blank, FHEDataCollector.push, blankGrants]

/-- A transaction does to the blank chain what it does to the chain, and reverts with the same
message. -/
theorem execute_blank (c : ChainState) (tx : Tx Env) :
    (execute self fromExternal c tx).map ChainState.blank =
      execute self blankExternal c.blank (tx.blank fromExternal) := by
  obtain ⟨sender, env, call⟩ := tx
  have howner : c.blank.collector.onlyOwner sender = c.collector.onlyOwner sender := rfl
  cases call with
  | startCollection =>
    simp only [execute, Tx.blank, FHEDataCollector.startCollection, howner]
    cases c.collector.onlyOwner sender <;> rfl
  | submitData price priceProof quantity quantityProof =>
    exact submitData_blank c sender env price quantity priceProof quantityProof
  | endCollection =>
    have hopen : c.blank.collector.isCollecting = c.collector.isCollecting := rfl
    simp only [execute, Tx.blank, FHEDataCollector.endCollection, howner, hopen]
    cases c.collector.onlyOwner sender with
    | error message => rfl
    | ok _ => cases c.collector.isCollecting <;> rfl
  | broadcast resolution =>
    have hclosed : c.blank.collector.isNotCollecting = c.collector.isNotCollecting := rfl
    have hlen : c.blank.collector.bidprice.length = c.collector.bidprice.length :=
      List.length_map _
    simp only [execute, Tx.blank, FHEDataCollector.broadcast, howner, hclosed, hlen]
    cases c.collector.onlyOwner sender with
    | error message => rfl
    | ok _ =>
      cases c.collector.isNotCollecting with
      | error message => rfl
      | ok _ => split_ifs <;> rfl

theorem attempt_blank (c : ChainState) (tx : Tx Env) :
    (attempt self fromExternal c tx).blank =
      attempt self blankExternal c.blank (tx.blank fromExternal) := by
  unfold attempt
  rw [← execute_blank]
  cases execute self fromExternal c tx <;> rfl

variable {ids : ℕ → IdSource} {hardhat : Hardhat}

/-- What the node does for the page it does without a look at a handle. -/
theorem settle_blank (fate : Fate) (c : ChainState) (k : Suspended) :
    (hardhat.settle fate c k).1.blank = (hardhat.settle fate c.blank k).1 := by
  -- the page submits no bid of its own, so no input has to verify
  let noInput : Unit → ExternalEuint32 → Bytes → Except String Euint32 := fun _ _ _ => .ok 0
  have hsends : (hardhat.sends fate () k).map (Tx.blank noInput) =
      hardhat.sends fate (.ok ()) k := by
    cases k with
    | startingCollection redispatchEvent => cases fate <;> rfl
    | endingCollection state => cases fate <;> rfl
    | _ => rfl
  rw [Hardhat.settle_chain hardhat 0 noInput fate () c k,
    Hardhat.settle_chain hardhat 0 blankExternal fate (.ok ()) c.blank k, ← hsends]
  cases hardhat.sends fate () k with
  | none => rfl
  | some tx => exact attempt_blank c tx

/-- A network next to one that never held a handle. -/
structure SealedAs (deployer : Address) (n n' : Network) : Prop where
  alike : Alike deployer n n'
  chain : n.chain.blank = n'.chain

theorem SealedAs.serve_chain {deployer : Address} {n n' : Network} (h : SealedAs deployer n n')
    (i : ℕ) (fate : Fate) (env : Env) :
    (n.step ids hardhat self fromExternal (.serve i fate env)).chain.blank =
      (n'.step ids hardhat self blankExternal (.serve i fate (.ok ()))).chain := by
  by_cases hawait : ∃ c, n.calls[i]? = some ⟨c, none⟩
  · obtain ⟨c, hc⟩ := hawait
    have hc' := (h.alike.awaiting i c).mp hc
    simp only [Network.step, hc, hc', ← h.chain]
    exact settle_blank fate n.chain c
  · have hidle : ∀ c, n.calls[i]? ≠ some ⟨c, none⟩ := not_exists.mp hawait
    have hidle' : ∀ c, n'.calls[i]? ≠ some ⟨c, none⟩ :=
      fun c hc => hidle c ((h.alike.awaiting i c).mpr hc)
    rw [Network.serve_idle hidle, Network.serve_idle hidle']
    exact h.chain

theorem deliver_chain (n : Network) (i : ℕ) :
    (n.step ids hardhat self fromExternal (.deliver i)).chain = n.chain := by
  simp only [Network.step]
  split <;> rfl

theorem SealedAs.step {deployer : Address} {n n' : Network} (h : SealedAs deployer n n')
    (a : NetworkAction Env) :
    SealedAs deployer (n.step ids hardhat self fromExternal a)
      (n'.step ids hardhat self blankExternal (a.blank fromExternal)) := by
  cases a with
  | start op => exact ⟨h.alike.step (.start op : NetworkAction Env), h.chain⟩
  | serve i fate env => exact ⟨h.alike.serve i fate env, h.serve_chain i fate env⟩
  | deliver i =>
    refine ⟨h.alike.step (.deliver i : NetworkAction Env), ?_⟩
    rw [deliver_chain, h.chain]
    exact (deliver_chain n' i).symm
  | external tx =>
    have hattempt : (attempt self fromExternal n.chain tx).blank =
        attempt self blankExternal n'.chain (tx.blank fromExternal) := by
      rw [attempt_blank, h.chain]
    have hphase : SamePhase (attempt self fromExternal n.chain tx)
        (attempt self blankExternal n'.chain (tx.blank fromExternal)) := by
      rw [← hattempt]
      exact ⟨rfl, rfl⟩
    exact ⟨⟨h.alike.frontend, h.alike.calls, hphase, (attempt_owner _ _).trans h.alike.owner⟩,
      hattempt⟩

theorem SealedAs.verdicts_eq {deployer : Address} {n n' : Network} (h : SealedAs deployer n n')
    (a : NetworkAction Env) :
    n.verdicts self fromExternal a = n'.verdicts self blankExternal (a.blank fromExternal) := by
  cases a with
  | external tx =>
    simp only [Network.verdicts, NetworkAction.blank, ← h.chain, ← execute_blank]
    cases execute self fromExternal n.chain tx <;> rfl
  | _ => rfl

variable (ids hardhat self fromExternal)

/-- Blank out every handle, input and proof of a run and it is the same run: the page ends as it
did, every call stands where it stood, the contract has the same senders, resolution and grantees,
and every transaction goes through or reverts with the same message. Of a submission the run is
only told whether its inputs verify. -/
theorem bids_stay_sealed (deployer : Address) (grants : List (Euint32 × Address))
    (redispatchEvent : RedispatchEvent) (actions : List (NetworkAction Env)) :
    let step := Network.step ids hardhat self fromExternal
    let step' := Network.step ids hardhat self blankExternal
    let n₀ := Network.initial deployer grants redispatchEvent
    let n₀' := Network.initial deployer (blankGrants grants) redispatchEvent
    let actions' := actions.map (NetworkAction.blank fromExternal)
    let n := run step n₀ actions
    let n' := run step' n₀' actions'
    n.frontend = n'.frontend ∧ n.calls.map Waiting.blind = n'.calls.map Waiting.blind ∧
      n.chain.blank = n'.chain ∧
      emitted step (Network.verdicts self fromExternal) n₀ actions =
        emitted step' (Network.verdicts self blankExternal) n₀' actions' := by
  intro step step' n₀ n₀' actions' n n'
  have hinitial : SealedAs deployer n₀ n₀' := ⟨⟨rfl, rfl, ⟨rfl, rfl⟩, rfl⟩, rfl⟩
  have hstep : ∀ (n n' : Network) (a : NetworkAction Env), SealedAs deployer n n' →
      SealedAs deployer (step n a) (step' n' (a.blank fromExternal)) :=
    fun n n' a h => h.step a
  have hend : SealedAs deployer n n' := by
    show SealedAs deployer n (run step' n₀' (actions.map _))
    rw [run_map]
    exact run_lockstep hstep hinitial actions
  refine ⟨hend.alike.frontend, hend.alike.calls, hend.chain, ?_⟩
  show _ = emitted step' _ n₀' (actions.map _)
  rw [emitted_map]
  exact emitted_lockstep hstep (fun n n' a h => h.verdicts_eq a) hinitial actions

end Blank

end GridFlex
