import GridFlex.Frontend.Interleaving

/-! The lifecycle of an auction under every interleaving: result and status agree at every
segment boundary, and a completed auction never becomes active again. -/
namespace GridFlex
open Transition

/-- The two stages that the pair of `auction` and `auctionResult` can be in. -/
def Coherent (state : GridFlexibilityState) : Prop :=
  (state.auctionResult = none ∧
    (state.auction = none ∨ ∃ a, state.auction = some a ∧ a.status = .active)) ∨
  ∃ result a, state.auctionResult = some result ∧ state.auction = some a ∧
    a.status = .completed ∧ result.auctionId = a.id

namespace System

/-- The auctions that the service has made and the model does not hold yet. -/
def pending (s : System) : List Auction := s.collect Role.announcing

def snapshots (s : System) : List Snapshot := s.collect Role.snapshot

/-- `id` is the auction of the model or of a trigger in flight. -/
def Known (s : System) (id : String) : Prop :=
  (∃ a, s.frontend.model.auction = some a ∧ a.id = id) ∨
    ∃ state ∈ s.snapshots, state.auction.id = id

end System

/-- Pending auctions are active and new: their ids differ from each other and from those known. -/
structure FreshIds (ids : ℕ → IdSource) (s : System) : Prop where
  nodup : (s.pending.map Auction.id).Nodup
  active : ∀ a ∈ s.pending, a.status = .active
  issued : ∀ a ∈ s.pending, Issued ids s.frontend.idCounter a.id
  known : ∀ id, s.Known id → Issued ids s.frontend.idCounter id
  disjoint : ∀ id, s.Known id → ∀ a ∈ s.pending, a.id ≠ id

variable {ids : ℕ → IdSource} {s s' : System} {a : Action}

theorem nodup_map_of_subperm {α β : Type*} {f : α → β} {xs ys : List α} (h : xs.Subperm ys)
    (hy : (ys.map f).Nodup) : (xs.map f).Nodup := by
  obtain ⟨zs, hperm, hsub⟩ := h
  have hz : (zs.map f).Nodup := (hsub.map f).nodup hy
  exact (hperm.map f).nodup_iff.mp hz

theorem FreshIds.shrink (h : FreshIds ids s) (hp : s'.pending.Subperm s.pending)
    (hk : ∀ id, s'.Known id → s.Known id) (hc : s.frontend.idCounter ≤ s'.frontend.idCounter) :
    FreshIds ids s' where
  nodup := nodup_map_of_subperm hp h.nodup
  active := fun a ha => h.active a (hp.subset ha)
  issued := fun a ha => (h.issued a (hp.subset ha)).mono hc
  known := fun id hid => (h.known id (hk id hid)).mono hc
  disjoint := fun id hid a ha => h.disjoint id (hk id hid) a (hp.subset ha)

theorem FreshIds.announce (h : FreshIds ids s) {auction : Auction}
    (hgen : auction.id = (generateId ids s.frontend.idCounter).1)
    (hactive : auction.status = .active) (hp : s'.pending.Subperm (auction :: s.pending))
    (hk : ∀ id, s'.Known id → s.Known id)
    (hc : s.frontend.idCounter < s'.frontend.idCounter) : FreshIds ids s' := by
  have hnew : ∀ id, Issued ids s.frontend.idCounter id → auction.id ≠ id := by
    intro id hi
    rw [hgen]
    exact generateId_ne hi
  refine ⟨nodup_map_of_subperm hp ?_, ?_, ?_, ?_, ?_⟩
  · rw [List.map_cons, List.nodup_cons]
    refine ⟨?_, h.nodup⟩
    intro hm
    obtain ⟨b, hb, he⟩ := List.mem_map.mp hm
    exact hnew b.id (h.issued b hb) he.symm
  · intro b hb
    rcases List.mem_cons.mp (hp.subset hb) with rfl | hb
    · exact hactive
    · exact h.active b hb
  · intro b hb
    rcases List.mem_cons.mp (hp.subset hb) with rfl | hb
    · rw [hgen]
      exact (generateId_issued ids _).mono hc
    · exact (h.issued b hb).mono hc.le
  · intro id hid
    exact (h.known id (hk id hid)).mono hc.le
  · intro id hid b hb
    rcases List.mem_cons.mp (hp.subset hb) with rfl | hb
    · exact hnew id (h.known id (hk id hid))
    · exact h.disjoint id (hk id hid) b hb

theorem FreshIds.store (h : FreshIds ids s) {auction : Auction}
    (hp : s.pending.Perm (auction :: s'.pending))
    (hk : ∀ id, s'.Known id → id = auction.id ∨ s.Known id)
    (hc : s.frontend.idCounter = s'.frontend.idCounter) : FreshIds ids s' := by
  have hsub : ∀ b ∈ s'.pending, b ∈ s.pending :=
    fun b hb => hp.mem_iff.mpr (List.mem_cons_of_mem _ hb)
  have hmem : auction ∈ s.pending := hp.mem_iff.mpr List.mem_cons_self
  have hnodup : (auction.id :: s'.pending.map Auction.id).Nodup :=
    (hp.map Auction.id).nodup_iff.mp h.nodup
  obtain ⟨hnot, hrest⟩ := List.nodup_cons.mp hnodup
  refine ⟨hrest, fun b hb => h.active b (hsub b hb), ?_, ?_, ?_⟩
  · intro b hb
    rw [← hc]
    exact h.issued b (hsub b hb)
  · intro id hid
    rw [← hc]
    rcases hk id hid with rfl | hid
    · exact h.issued auction hmem
    · exact h.known id hid
  · intro id hid b hb
    rcases hk id hid with rfl | hid
    · intro he
      exact hnot (he ▸ List.mem_map_of_mem hb)
    · exact h.disjoint id hid b (hsub b hb)

namespace Move

theorem known (m : Move ids s a s')
    (hauction : ∀ b, s'.frontend.model.auction = some b → s.Known b.id)
    (hnext : ∀ c' ∈ m.next, ∀ state, c'.role.snapshot = some state → s.Known state.auction.id)
    {id : String} (h : s'.Known id) : s.Known id := by
  rcases h with ⟨b, hb, rfl⟩ | ⟨state, hstate, rfl⟩
  · exact hauction b hb
  · rcases m.mem_collect' hstate with ⟨c', hc', htag⟩ | hstate
    · exact hnext c' hc' state htag
    · exact Or.inr ⟨state, hstate, rfl⟩

/-- The moves after which no call has just announced an auction. -/
theorem freshIds_of_known (m : Move ids s a s') (h : FreshIds ids s)
    (hauction : ∀ b, s'.frontend.model.auction = some b → s.Known b.id)
    (hnext : ∀ c' ∈ m.next, c'.role.announcing = none ∧
      ∀ state, c'.role.snapshot = some state → s.Known state.auction.id)
    (hc : s.frontend.idCounter ≤ s'.frontend.idCounter) : FreshIds ids s' := by
  apply h.shrink
  · exact m.collect_subperm _ fun c' hc' => Or.inl (hnext c' hc').1
  · exact fun id => m.known hauction fun c' hc' => (hnext c' hc').2
  · exact hc

theorem freshIds (m : Move ids s a s') (h : FreshIds ids s) : FreshIds ids s' := by
  have hseg := m.segment
  have hcall : ∀ c ∈ m.call.map Call.suspended, ∀ state, c.role.snapshot = some state →
      s.Known state.auction.id :=
    fun c hc state htag => Or.inr ⟨state, m.mem_collect hc htag, rfl⟩
  have hmodel : ∀ b, s.frontend.model.auction = some b → s.Known b.id :=
    fun b hb => Or.inl ⟨b, hb, rfl⟩
  generalize hc : m.call.map Call.suspended = call, hn : m.next = next,
    hr : m.replaced = replaced, hf : s'.frontend = f' at hseg
  cases hseg with
  | quiet hq hrole =>
    have htag {β : Type} (tag : Role → Option β) (hb : tag .bystander = none) :
        ∀ c' ∈ m.next, tag c'.role = none ∨
          ∃ c ∈ m.call.map Call.suspended, tag c'.role = tag c.role := by
      intro c' hc'
      rcases hrole c' (hn ▸ hc') with he | ⟨c, hm, he⟩
      · exact Or.inl (he ▸ hb)
      · exact Or.inr ⟨c, hc ▸ hm, congrArg tag he⟩
    apply h.shrink (m.collect_subperm _ (htag _ rfl)) _ (hf ▸ hq.idCounter)
    intro id hid
    apply m.known _ _ hid
    · intro b hb
      exact hmodel b (by rwa [hf, hq.auction] at hb)
    · intro c' hc' state hs
      rcases htag Role.snapshot rfl c' hc' with hnone | ⟨c, hm, he⟩
      · simp [hs] at hnone
      · exact hcall c hm state (he ▸ hs)
  | announce auction hq hlt hid hactive =>
    apply h.announce hid hactive _ _ (hf ▸ hlt)
    · have hp := m.collect_perm' Role.announcing
      rw [hn] at hp
      exact hp.subperm.trans ((List.subperm_cons auction).mpr (m.rest_subperm _))
    · intro id
      apply m.known
      · intro b hb
        exact hmodel b (by rwa [hf, hq.auction] at hb)
      · rw [hn]
        simp [Suspended.role, Role.snapshot]
  | trigger state hauction hplaced =>
    apply m.freshIds_of_known h (by rwa [hf]) _ (by rw [hf])
    rw [hn]
    simpa [Suspended.role, Role.announcing, Role.snapshot] using hmodel state.auction hauction
  | bid auction announced hq hauction hrole hsub =>
    apply m.freshIds_of_known h (by rwa [hf, hq.auction]) _ (hf ▸ hq.idCounter)
    rw [hn]
    simp [hrole, Role.announcing, Role.snapshot]
  | publishBid auctionId announced hq hcall' hrole hsub =>
    apply m.freshIds_of_known h (by rwa [hf, hq.auction]) _ (hf ▸ hq.idCounter)
    rw [hn]
    simp [hrole, Role.announcing, Role.snapshot]
  | store auction =>
    have hp := m.collect_perm Role.announcing
    have hp' := m.collect_perm' Role.announcing
    obtain ⟨c, hcm, hcs⟩ := Option.map_eq_some_iff.mp hc
    rw [hcm, Option.bind_some, hcs] at hp
    rw [hn] at hp'
    apply h.store (hp.trans (hp'.symm.cons auction)) _ (by rw [hf]; rfl)
    intro id hid
    rcases hid with ⟨b, hb, rfl⟩ | ⟨state, hstate, rfl⟩
    · rw [hf] at hb
      cases hb
      exact Or.inl rfl
    · have hsub := m.collect_subperm Role.snapshot (by simp [hn])
      exact Or.inr (Or.inr ⟨state, hsub.subset hstate, rfl⟩)
  | resolve state output c' hreply hout hrole =>
    have hs : s.Known state.auction.id := hcall _ (by rw [hc]; rfl) state rfl
    apply m.freshIds_of_known h _ _ (by rw [hf]; rfl)
    · intro b hb
      rw [hf] at hb
      cases hb
      exact hs
    · rw [hn]
      simp [hrole, Role.announcing, Role.snapshot]
  | flag auctionId hcall' hset hauction hresult hevents hcounter =>
    exact m.freshIds_of_known h (by rwa [hf, hauction]) (by simp [hn]) (by rw [hf, hcounter])
  | reset =>
    apply m.freshIds_of_known h _ (by simp [hn]) (by rw [hf]; rfl)
    intro b hb
    rw [hf] at hb
    cases hb

/-- An auction that is pending after a move was pending before or carries a new id. -/
theorem mem_pending (m : Move ids s a s') {b : Auction} (hb : b ∈ s'.pending) :
    b ∈ s.pending ∨ b.id = (generateId ids s.frontend.idCounter).1 := by
  rcases m.mem_collect' hb with ⟨c', hc', htag⟩ | hb
  · have hseg := m.segment
    rw [Option.mem_def.mp hc'] at hseg
    generalize hc : m.call.map Call.suspended = call, hr : m.replaced = replaced,
      hf : s'.frontend = f' at hseg
    cases hseg with
    | quiet hq hrole =>
      rcases hrole c' rfl with he | ⟨c, hm, he⟩
      · simp [he, Role.announcing] at htag
      · exact Or.inl (m.mem_collect (hc ▸ hm) (he ▸ htag))
    | announce auction hq hlt hid hactive =>
      cases htag
      exact Or.inr hid
    | trigger => simp [Suspended.role, Role.announcing] at htag
    | bid _ _ _ _ hrole => simp [hrole, Role.announcing] at htag
    | publishBid _ _ _ _ hrole => simp [hrole, Role.announcing] at htag
    | resolve _ _ _ _ _ hrole => simp [hrole, Role.announcing] at htag
  · exact Or.inl hb

theorem coherent (m : Move ids s a s') (h : FreshIds ids s) (hs : Coherent s.frontend.model) :
    Coherent s'.frontend.model := by
  rcases m.segment.writes with ⟨ha, hr, -⟩ | ⟨auction, hc, hf, -⟩ |
    ⟨state, output, hc, -, hout, hf, -⟩ | ⟨-, hf, -⟩
  · unfold Coherent
    rwa [ha, hr]
  · have hm : auction ∈ s.pending := m.mem_collect hc rfl
    rw [hf]
    exact Or.inl ⟨rfl, Or.inr ⟨auction, rfl, h.active auction hm⟩⟩
  · obtain ⟨-, -, hresult⟩ := processAuction_inv hout
    rw [hf]
    exact Or.inr ⟨_, _, rfl, rfl, rfl, by rw [hresult]; rfl⟩
  · rw [hf]
    exact Or.inl ⟨rfl, Or.inl rfl⟩

end Move

/-- No call can bring auction `id` back: it is over in the model and nobody holds it as new. -/
structure Retired (ids : ℕ → IdSource) (s : System) (id : String) : Prop where
  issued : Issued ids s.frontend.idCounter id
  completed : ∀ a, s.frontend.model.auction = some a → a.id = id → a.status = .completed
  announced : ∀ a ∈ s.pending, a.id ≠ id

theorem Move.retired (m : Move ids s a s') {id : String} (h : Retired ids s id) :
    Retired ids s' id := by
  refine ⟨h.issued.mono m.segment.idCounter_le, ?_, ?_⟩
  · intro b hb hid
    rcases m.segment.writes with ⟨ha, -, -⟩ | ⟨auction, hc, hf, -⟩ |
      ⟨state, output, -, -, -, hf, -⟩ | ⟨-, hf, -⟩
    · exact h.completed b (ha ▸ hb) hid
    · have hm : auction ∈ s.pending := m.mem_collect hc rfl
      rw [hf] at hb
      cases hb
      exact absurd hid (h.announced _ hm)
    · rw [hf] at hb
      cases hb
      rfl
    · rw [hf] at hb
      cases hb
  · intro b hb
    rcases m.mem_pending hb with hb | hgen
    · exact h.announced b hb
    · rw [hgen]
      exact generateId_ne h.issued

/-- Every state of every interleaving. -/
structure Lifecycle (ids : ℕ → IdSource) (s : System) : Prop where
  freshIds : FreshIds ids s
  coherent : Coherent s.frontend.model

theorem initial_lifecycle (redispatchEvent : RedispatchEvent) :
    Lifecycle ids (.initial redispatchEvent) := by
  have hp : (System.initial redispatchEvent).pending = [] := rfl
  have hk : ∀ id, ¬(System.initial redispatchEvent).Known id := by
    rintro id (⟨b, hb, -⟩ | ⟨state, hstate, -⟩)
    · cases hb
    · cases hstate
  refine ⟨⟨by simp [hp], by simp [hp], by simp [hp], ?_, ?_⟩, Or.inl ⟨rfl, Or.inl rfl⟩⟩
  · exact fun id hid => absurd hid (hk id)
  · exact fun id hid => absurd hid (hk id)

theorem Lifecycle.step (h : Lifecycle ids s) (a : Action) : Lifecycle ids (s.step ids a) := by
  rcases s.step_cases ids a with he | ⟨⟨m⟩⟩
  · rwa [he]
  · exact ⟨m.freshIds h.freshIds, m.coherent h.freshIds h.coherent⟩

theorem run_lifecycle (redispatchEvent : RedispatchEvent) (as : List Action) :
    Lifecycle ids (run (System.step ids) (.initial redispatchEvent) as) :=
  run_invariant (I := Lifecycle ids) (fun _ a h => h.step a) (initial_lifecycle redispatchEvent) as

theorem Retired.step {id : String} (h : Retired ids s id) (a : Action) :
    Retired ids (s.step ids a) id := by
  rcases s.step_cases ids a with he | ⟨⟨m⟩⟩
  · rwa [he]
  · exact m.retired h

theorem Retired.run {id : String} (h : Retired ids s id) (as : List Action) :
    Retired ids (run (System.step ids) s as) id :=
  run_invariant (I := fun s => Retired ids s id) (fun _ a h => h.step a) h as

theorem FreshIds.retired (h : FreshIds ids s) {auction : Auction}
    (hauction : s.frontend.model.auction = some auction) (hstatus : auction.status = .completed) :
    Retired ids s auction.id := by
  have hk : s.Known auction.id := Or.inl ⟨auction, hauction, rfl⟩
  refine ⟨h.known _ hk, ?_, h.disjoint _ hk⟩
  intro b hb _
  cases hauction.symm.trans hb
  exact hstatus

/-- At every boundary of every interleaving the result and the status of the auction agree,
and an id that has been completed is never active afterwards. -/
theorem interleaving_lifecycle (ids : ℕ → IdSource) (redispatchEvent : RedispatchEvent)
    (before after : List Action) :
    let s := run (System.step ids) (.initial redispatchEvent) before
    let s' := run (System.step ids) s after
    Coherent s.frontend.model ∧
      ∀ a a', s.frontend.model.auction = some a → a.status = .completed →
        s'.frontend.model.auction = some a' → a'.id = a.id → a'.status = .completed := by
  intro s s'
  have h : Lifecycle ids s := run_lifecycle redispatchEvent before
  refine ⟨h.coherent, ?_⟩
  intro a a' ha hstatus ha' hid
  have hr : Retired ids s' a.id := (h.freshIds.retired ha hstatus).run after
  exact hr.completed a' ha' hid

end GridFlex
