import GridFlex.Market.Network

/-! Every call returns: whatever the schedule, the node and the other calls do, a call can always
go on, and it goes on a bounded number of times. -/
namespace GridFlex
open Transition

/-- The steps that a call still has before it, at most: two for each of its awaits. -/
def Waiting.rank (w : Waiting) : ℕ :=
  2 * w.suspended.awaits + if w.reply.isNone then 2 else 1

def Network.rank (n : Network) : ℕ := (n.calls.map Waiting.rank).sum

/-- The replies that calls wait to go on with are replies to their awaits. -/
def Network.Settled (n : Network) : Prop :=
  ∀ w ∈ n.calls, ∀ reply ∈ w.reply, w.suspended.SettledBy reply

def NetworkAction.isStart {Env : Type} : NetworkAction Env → Bool
  | .start _ => true
  | _ => false

variable {ids : ℕ → IdSource} {hardhat : Hardhat}

/-- With four participants, `broadcastAllBids` awaits the most: four submissions of data, three
delays and four of bids. -/
theorem begin_awaits {redispatchEvent : RedispatchEvent} {f : Frontend}
    (hs : Standing redispatchEvent f) (op : Operation) {c : Suspended}
    (hc : (f.begin ids op).2 = some c) : c.awaits ≤ 10 := by
  have hbegin := begin_cases ids f op
  rw [hc] at hbegin
  generalize (f.begin ids op).1 = f' at hbegin
  cases hbegin with
  | broadcastAllBids auction p rest hauction hvalid =>
    have hlen : (f.model.participants.map Participant.id).length = 4 := by
      rw [hs.participants]
      rfl
    have hfilter := List.length_filter_le Participant.isValid f.model.participants
    rw [hvalid, List.length_cons] at hfilter
    rw [List.length_map] at hlen
    simp only [Suspended.awaits, List.length_cons]
    omega
  | _ => simp [Suspended.awaits]

section Steps

variable {Env : Type} {self : Address}
  {fromExternal : Env → ExternalEuint32 → Bytes → Except String Euint32}
  {redispatchEvent : RedispatchEvent}

/-- What holds of a network on its way. -/
structure Network.Sound (redispatchEvent : RedispatchEvent) (n : Network) : Prop where
  standing : Standing redispatchEvent n.frontend
  settled : n.Settled

theorem Network.Sound.step {n : Network} (h : n.Sound redispatchEvent) (a : NetworkAction Env) :
    (n.step ids hardhat self fromExternal a).Sound redispatchEvent := by
  have hsettled := h.settled
  have hstep := n.step_cases ids hardhat self fromExternal a
  generalize n.step ids hardhat self fromExternal a = n', n.sent hardhat a = txs,
    n.resumed a = as at hstep ⊢
  cases hstep with
  | idle => exact h
  | started op =>
    refine ⟨h.standing.start op, ?_⟩
    intro w hw reply hreply
    rcases List.mem_append.mp hw with hold | hnew
    · exact hsettled w hold reply hreply
    · obtain ⟨c, -, rfl⟩ : ∃ c, (n.frontend.begin ids op).2 = some c ∧ ⟨c, none⟩ = w := by
        simpa using hnew
      cases hreply
  | served before c after fate env hcalls =>
    refine ⟨h.standing, ?_⟩
    intro w hw reply hreply
    rcases List.mem_append.mp hw with hold | hrest
    · exact hsettled w (by simp [hcalls, hold]) reply hreply
    · rcases List.mem_cons.mp hrest with rfl | hold
      · cases hreply
        exact Hardhat.settle_settledBy fate n.chain c
      · exact hsettled w (by simp [hcalls, hold]) reply hreply
  | delivered before c reply after hcalls =>
    refine ⟨h.standing.resume c reply, ?_⟩
    intro w hw reply' hreply'
    rcases List.mem_append.mp hw with hfront | hold
    · rcases List.mem_append.mp hfront with hold | hnew
      · exact hsettled w (by simp [hcalls, hold]) reply' hreply'
      · obtain ⟨c', -, rfl⟩ :
            ∃ c', (n.frontend.resume ids c reply).2 = some c' ∧ ⟨c', none⟩ = w := by
          simpa using hnew
        cases hreply'
    · exact hsettled w (by simp [hcalls, hold]) reply' hreply'
  | external tx => exact ⟨h.standing, hsettled⟩

/-- Going on brings the calls closer to their returns, and only a start takes them away. -/
theorem Network.Sound.step_rank {n : Network} (h : n.Sound redispatchEvent)
    (a : NetworkAction Env) :
    (n.step ids hardhat self fromExternal a).rank + (if n.progresses a then 1 else 0) ≤
      n.rank + if a.isStart then 22 else 0 := by
  have hsettled := h.settled
  have hstep := n.step_cases ids hardhat self fromExternal a
  generalize n.step ids hardhat self fromExternal a = n', n.sent hardhat a = txs,
    n.resumed a = as at hstep ⊢
  cases hstep with
  | idle hidle => simp [hidle]
  | started op =>
    simp only [rank, progresses, NetworkAction.isStart, List.map_append, List.sum_append]
    cases hc : (n.frontend.begin ids op).2 with
    | none => simp
    | some c =>
      have hawaits : c.awaits ≤ 10 := begin_awaits h.standing op hc
      simp [Waiting.rank]
      omega
  | served before c after fate env hcalls =>
    simp [rank, progresses, NetworkAction.isStart, hcalls, Waiting.rank]
  | delivered before c reply after hcalls =>
    have hreply : c.SettledBy reply := hsettled ⟨c, some reply⟩ (by simp [hcalls]) reply rfl
    simp only [rank, progresses, NetworkAction.isStart, hcalls, List.map_append, List.sum_append]
    cases hc : (n.frontend.resume ids c reply).2 with
    | none => simp [Waiting.rank]
    | some c' =>
      have hawaits : c'.awaits < c.awaits := resume_awaits_lt hreply hc
      simp [Waiting.rank]
      omega
  | external tx => simp [rank, progresses, NetworkAction.isStart]

end Steps

variable {Env : Type} (ids : ℕ → IdSource) (hardhat : Hardhat) (self : Address)
  (fromExternal : Env → ExternalEuint32 → Bytes → Except String Euint32)

/-- The steps of a run that bring some call on. -/
def Network.progress (n : Network) (actions : List (NetworkAction Env)) :
    List (NetworkAction Env) :=
  emitted (Network.step ids hardhat self fromExternal)
    (fun n a => if n.progresses a then [a] else []) n actions

variable {ids hardhat self fromExternal} in
theorem Network.Sound.progress_rank {redispatchEvent : RedispatchEvent} {n : Network}
    (h : n.Sound redispatchEvent) (actions : List (NetworkAction Env)) :
    (n.progress ids hardhat self fromExternal actions).length +
        (run (Network.step ids hardhat self fromExternal) n actions).rank ≤
      n.rank + 22 * actions.countP NetworkAction.isStart := by
  induction actions generalizing n with
  | nil => simp [progress, emitted]
  | cons a actions ih =>
    let n' := n.step ids hardhat self fromExternal a
    have hnext : n'.Sound redispatchEvent := h.step a
    have hstep : n'.rank + (if n.progresses a then 1 else 0) ≤
        n.rank + if a.isStart then 22 else 0 := h.step_rank a
    have hrest := ih hnext
    have hlength : (if n.progresses a then [a] else []).length =
        if n.progresses a then 1 else 0 := by split <;> rfl
    have hstart : 22 * (if a.isStart then 1 else 0) = if a.isStart then 22 else 0 := by
      split <;> rfl
    have hprogress : n.progress ids hardhat self fromExternal (a :: actions) =
        (if n.progresses a then [a] else []) ++
          n'.progress ids hardhat self fromExternal actions := rfl
    have hrun : run (Network.step ids hardhat self fromExternal) n (a :: actions) =
        run (Network.step ids hardhat self fromExternal) n' actions := rfl
    rw [hprogress, hrun, List.length_append, hlength, List.countP_cons, Nat.mul_add, hstart]
    omega

/-- In every run with `k` calls started at most `22 * k` steps bring a call on, after which all
have returned; and until then every call in flight can go on by itself. -/
theorem calls_return (deployer : Address) (grants : List (Euint32 × Address))
    (redispatchEvent : RedispatchEvent) (actions : List (NetworkAction Env)) :
    let n₀ := Network.initial deployer grants redispatchEvent
    let n := run (Network.step ids hardhat self fromExternal) n₀ actions
    (n₀.progress ids hardhat self fromExternal actions).length + n.calls.length ≤
        22 * actions.countP NetworkAction.isStart ∧
      ∀ i < n.calls.length, n.progresses (.deliver i : NetworkAction Env) = true ∨
        ∀ fate (env : Env), n.progresses (.serve i fate env) = true := by
  intro n₀ n
  have hrank : n.calls.length ≤ n.rank := by
    have h : ∀ w ∈ n.calls.map Waiting.rank, 1 ≤ w := by
      intro k hk
      obtain ⟨w, -, rfl⟩ := List.mem_map.mp hk
      unfold Waiting.rank
      split <;> omega
    simpa [Network.rank] using List.card_nsmul_le_sum _ 1 h
  have hsound : n₀.Sound redispatchEvent := ⟨⟨rfl, rfl⟩, fun w hw => absurd hw List.not_mem_nil⟩
  have hprogress : (n₀.progress ids hardhat self fromExternal actions).length + n.rank ≤
      n₀.rank + 22 * actions.countP NetworkAction.isStart := hsound.progress_rank actions
  have hzero : n₀.rank = 0 := rfl
  refine ⟨by omega, ?_⟩
  intro i hi
  cases hw : n.calls[i] with
  | mk c reply =>
    have hget : n.calls[i]? = some ⟨c, reply⟩ := by rw [List.getElem?_eq_getElem hi, hw]
    cases reply with
    | some reply => exact Or.inl (by simp [Network.progresses, hget])
    | none => exact Or.inr fun fate env => by simp [Network.progresses, hget]

end GridFlex
