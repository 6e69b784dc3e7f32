import GridFlex.Frontend.Record
import GridFlex.Market.Returns

/-! Where the receipts are that the node has issued: on the page, in a call that has not gone on
yet, or gone with a reset. -/
namespace GridFlex
open Transition

variable {ids : ℕ → IdSource} {hardhat : Hardhat}

/-- The receipts that the call has been sent and has not handed on. -/
def Waiting.receipts (w : Waiting) : List BlockchainTransaction :=
  (w.reply.map Reply.receipts).getD []

@[simp] theorem Waiting.receipts_none (c : Suspended) :
    (⟨c, none⟩ : Waiting).receipts = [] := rfl

@[simp] theorem Waiting.receipts_some (c : Suspended) (reply : Reply) :
    (⟨c, some reply⟩ : Waiting).receipts = reply.receipts := rfl

/-- The receipts that the page drops as it goes on: those of the round that a reset closes. -/
def Frontend.clearedBy (f : Frontend) : Suspended → Reply → List BlockchainTransaction
  | .resetting, .settled => f.model.transactions
  | _, _ => []

namespace Network

def pending (n : Network) : List BlockchainTransaction := n.calls.flatMap Waiting.receipts

/-- The receipts on their way to the page and those on it. -/
def held (n : Network) : List BlockchainTransaction :=
  n.frontend.model.transactions ++ n.pending

/-- The receipts that an action makes the node issue. -/
def issued {Env : Type} (hardhat : Hardhat) (n : Network) :
    NetworkAction Env → List BlockchainTransaction
  | .serve i fate _ =>
      match n.calls[i]? with
      | some ⟨c, none⟩ => (hardhat.settle fate n.chain c).2.receipts
      | _ => []
  | _ => []

/-- The receipts that an action takes off the page. -/
def cleared {Env : Type} (n : Network) : NetworkAction Env → List BlockchainTransaction
  | .deliver i =>
      match n.calls[i]? with
      | some ⟨c, some reply⟩ => n.frontend.clearedBy c reply
      | _ => []
  | _ => []

variable {Env : Type}

theorem idle_issued (n : Network) {a : NetworkAction Env} (hidle : n.progresses a = false) :
    n.issued hardhat a = [] := by
  cases a with
  | serve i fate env =>
    rcases hi : n.calls[i]? with _ | ⟨c, _ | reply⟩
    · simp [issued, hi]
    · simp [progresses, hi] at hidle
    · simp [issued, hi]
  | _ => rfl

theorem idle_cleared (n : Network) {a : NetworkAction Env} (hidle : n.progresses a = false) :
    n.cleared a = [] := by
  cases a with
  | deliver i =>
    rcases hi : n.calls[i]? with _ | ⟨c, _ | reply⟩
    · simp [cleared, hi]
    · simp [cleared, hi]
    · simp [progresses, hi] at hidle
  | _ => rfl

end Network

theorem begin_transactions (f : Frontend) (op : Operation) :
    (f.begin ids op).1.model.transactions = f.model.transactions := by
  have hdesk : (f.begin ids op).1.model.transactions =
      (run Desk.enter f.desk op.entries).transactions :=
    congrArg Desk.transactions (begin_desk f op)
  cases op <;> exact hdesk

/-- A settled await hands its receipts on to the page, where a reset drops those of before. -/
theorem Frontend.resume_receipts (ids : ℕ → IdSource) (f : Frontend) {c : Suspended} {reply : Reply}
    (hreply : c.SettledBy reply) :
    ((f.resume ids c reply).1.model.transactions ++ f.clearedBy c reply).Perm
      (reply.receipts ++ f.model.transactions) := by
  have hdesk : (f.resume ids c reply).1.model.transactions =
      (run Desk.enter f.desk (c.entries reply)).transactions :=
    congrArg Desk.transactions (resume_desk f c reply)
  cases c with
  | startingCollection | endingCollection | submittingData =>
    obtain ⟨tx, rfl⟩ | rfl := hreply
    · exact List.Perm.of_eq ((List.append_nil _).trans hdesk)
    · exact List.Perm.of_eq ((List.append_nil _).trans hdesk)
  | collectingData =>
    obtain ⟨prices, quantities, rfl⟩ | rfl := hreply
    · exact List.Perm.of_eq ((List.append_nil _).trans hdesk)
    · exact List.Perm.of_eq ((List.append_nil _).trans hdesk)
  | resetting =>
    obtain rfl := hreply
    have hempty : (f.resume ids .resetting .settled).1.model.transactions = [] := hdesk
    rw [hempty]
    exact List.Perm.refl _
  | _ =>
    obtain rfl := hreply
    exact List.Perm.of_eq ((List.append_nil _).trans hdesk)

section Steps

variable {Env : Type} {self : Address}
  {fromExternal : Env → ExternalEuint32 → Bytes → Except String Euint32}

theorem flatMap_next (next : Option Suspended) :
    (next.map fun c => (⟨c, none⟩ : Waiting)).toList.flatMap Waiting.receipts = [] := by
  cases next <;> rfl

/-- One action moves receipts, and neither drops nor copies one. -/
theorem Network.Sound.step_receipts {redispatchEvent : RedispatchEvent} {n : Network}
    (h : n.Sound redispatchEvent) (a : NetworkAction Env) :
    ((n.step ids hardhat self fromExternal a).held ++ n.cleared a).Perm
      (n.held ++ n.issued hardhat a) := by
  have hsettled := h.settled
  have hstep := n.step_cases ids hardhat self fromExternal a
  generalize n.step ids hardhat self fromExternal a = n', n.sent hardhat a = txs,
    n.resumed a = as at hstep ⊢
  cases hstep with
  | idle hidle => rw [n.idle_cleared hidle, n.idle_issued hidle]
  | started op =>
    simp only [held, pending, issued, cleared, List.append_nil, List.flatMap_append,
      begin_transactions, flatMap_next]
    exact List.Perm.refl _
  | served before c after fate env hcalls =>
    have hget : n.calls[before.length]? = some ⟨c, none⟩ := by simp [hcalls]
    have hissued : n.issued hardhat (.serve before.length fate env) =
        (hardhat.settle fate n.chain c).2.receipts := by simp only [issued, hget]
    simp only [held, pending, hissued, cleared, List.append_nil, List.flatMap_append,
      List.flatMap_cons, hcalls, Waiting.receipts_none, Waiting.receipts_some, List.nil_append]
    rw [← Multiset.coe_eq_coe]
    simp only [← Multiset.coe_add]
    abel
  | delivered before c reply after hcalls =>
    have hget : n.calls[before.length]? = some ⟨c, some reply⟩ := by simp [hcalls]
    have hreply : c.SettledBy reply := hsettled ⟨c, some reply⟩ (by simp [hcalls]) reply rfl
    have hpage := n.frontend.resume_receipts ids hreply
    have hcleared : n.cleared (.deliver before.length : NetworkAction Env) =
        n.frontend.clearedBy c reply := by simp only [cleared, hget]
    rw [← Multiset.coe_eq_coe] at hpage ⊢
    simp only [held, pending, issued, hcleared, hcalls, List.append_nil, List.flatMap_append,
      List.flatMap_cons, flatMap_next, Waiting.receipts_some, ← Multiset.coe_add] at hpage ⊢
    rw [add_right_comm, hpage]
    abel
  | external tx => exact List.Perm.refl _

end Steps

/-- Whatever calls are in flight, every receipt that the node has issued is on the page once, or
waits in a call, or went with a reset. -/
theorem receipts_conserved {Env : Type} (ids : ℕ → IdSource) (hardhat : Hardhat) (self : Address)
    (fromExternal : Env → ExternalEuint32 → Bytes → Except String Euint32) (deployer : Address)
    (grants : List (Euint32 × Address)) (redispatchEvent : RedispatchEvent)
    (actions : List (NetworkAction Env)) :
    let step := Network.step ids hardhat self fromExternal
    let n₀ := Network.initial deployer grants redispatchEvent
    let n := run step n₀ actions
    (n.frontend.model.transactions ++ n.pending ++ emitted step Network.cleared n₀ actions).Perm
      (emitted step (Network.issued hardhat) n₀ actions) := by
  intro step n₀ n
  have hsound : n₀.Sound redispatchEvent :=
    ⟨⟨rfl, rfl⟩, fun w hw => absurd hw List.not_mem_nil⟩
  exact run_conserved (fun n a (h : n.Sound redispatchEvent) => h.step a)
    (fun n a h => h.step_receipts a) hsound actions

end GridFlex
