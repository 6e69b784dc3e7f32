import GridFlex.Frontend.Effects
import GridFlex.Frontend.Interleaving

/-! The event log is causal under every interleaving: an auction is broadcast before anything
is published about it. The ids in the calls in flight are part of the invariant. -/
namespace GridFlex
open Transition

/-- Auction `id` has been broadcast in `events`. -/
def Opened (events : List GridFlexibilityEvent) (id : String) : Prop :=
  ∃ e ∈ events, id ∈ e.payload.opens?

/-- Whatever an event is about was broadcast strictly before it. -/
def CausalLog (events : List GridFlexibilityEvent) : Prop :=
  ∀ before e after, events = before ++ e :: after → ∀ id ∈ e.payload.concerns?, Opened before id

theorem Opened.mono {events events' : List GridFlexibilityEvent} {id : String}
    (h : Opened events id) (hsub : events ⊆ events') : Opened events' id := by
  obtain ⟨e, he, hid⟩ := h
  exact ⟨e, hsub he, hid⟩

theorem CausalLog.append {events new : List GridFlexibilityEvent} (h : CausalLog events)
    (hnew : ∀ e ∈ new, ∀ id ∈ e.payload.concerns?, Opened events id) :
    CausalLog (events ++ new) := by
  intro before e after hs id hid
  rcases List.append_eq_append_iff.mp hs with ⟨mid, rfl, hmid⟩ | ⟨mid, hevents, hmid⟩
  · have hmem : e ∈ new := by simp [hmid]
    exact (hnew e hmem id hid).mono (List.subset_append_left _ _)
  · cases mid with
    | nil =>
      have hmem : e ∈ new := by
        rw [List.nil_append] at hmid
        exact hmid ▸ List.mem_cons_self
      have ho : Opened events id := hnew e hmem id hid
      rwa [hevents, List.append_nil] at ho
    | cons x mid =>
      obtain ⟨rfl, -⟩ := List.cons.inj hmid
      exact h before e mid hevents id hid

/-- The log is causal, and every auction id that the model or a call holds has been broadcast. -/
structure Causal (s : System) : Prop where
  log : CausalLog s.frontend.events
  auction : ∀ a ∈ s.frontend.model.auction, Opened s.frontend.events a.id
  calls : ∀ c ∈ s.calls, ∀ id ∈ c.suspended.auctionId?, Opened s.frontend.events id

variable {ids : ℕ → IdSource}

/-- A segment that starts with ids that were broadcast leaves only such ids behind. -/
theorem Speaks.causal {f f' : Frontend} {about : Option String} {next : Option Suspended}
    (h : Speaks ids f about f' next) (hlog : CausalLog f.events)
    (hauction : ∀ a ∈ f.model.auction, Opened f.events a.id)
    (habout : ∀ id ∈ about, Opened f.events id) :
    CausalLog f'.events ∧ f.events ⊆ f'.events ∧
      (∀ a ∈ f'.model.auction, Opened f'.events a.id) ∧
      ∀ c' ∈ next, ∀ id ∈ c'.auctionId?, Opened f'.events id := by
  obtain ⟨payloads, he, hconcerns, hnext⟩ := h.effects
  obtain ⟨new, hevents, rfl⟩ := he.log
  have hsub : f.events ⊆ f'.events := by
    rw [hevents]
    exact List.subset_append_left _ _
  refine ⟨?_, hsub, ?_, ?_⟩
  · rw [hevents]
    apply hlog.append
    intro e he id hid
    exact habout id (hconcerns _ (List.mem_map_of_mem he) id hid)
  · intro a ha
    rcases h.auction a ha with ha | hid
    · exact (hauction a ha).mono hsub
    · exact (habout a.id hid).mono hsub
  · intro c' hc' id hid
    rcases hnext c' hc' id hid with hid | ⟨p, hp, hid⟩
    · exact (habout id hid).mono hsub
    · obtain ⟨e, he, rfl⟩ := List.mem_map.mp hp
      exact ⟨e, by rw [hevents]; exact List.mem_append_right _ he, hid⟩

theorem initial_causal (redispatchEvent : RedispatchEvent) :
    Causal (.initial redispatchEvent) where
  log := by
    intro before e after hs
    simp [System.initial, Frontend.initial] at hs
  auction := by simp [System.initial, Frontend.initial, GridFlexibilityState.initial]
  calls := by simp [System.initial]

theorem Causal.step {s : System} (h : Causal s) (a : Action) : Causal (s.step ids a) := by
  cases a with
  | start op =>
    have habout : ∀ id ∈ s.frontend.model.auction.map Auction.id, Opened s.frontend.events id := by
      intro id hid
      obtain ⟨b, hb, rfl⟩ := Option.map_eq_some_iff.mp hid
      exact h.auction b hb
    obtain ⟨hlog, hsub, hauction, hnext⟩ :=
      (@begin_speaks ids s.frontend op).causal h.log h.auction habout
    refine ⟨hlog, hauction, ?_⟩
    intro c hc id hid
    rcases List.mem_append.mp hc with hc | hc
    · exact (h.calls c hc id hid).mono hsub
    · obtain ⟨c', hc', rfl⟩ := Option.map_eq_some_iff.mp (Option.mem_toList.mp hc)
      exact hnext c' hc' id hid
  | resume i reply =>
    cases hi : s.calls[i]? with
    | none =>
      simp only [System.step, hi]
      exact h
    | some call =>
      have hcall : call ∈ s.calls := List.mem_of_getElem? hi
      obtain ⟨hlog, hsub, hauction, hnext⟩ :=
        (@resume_speaks ids s.frontend call.suspended reply).causal h.log h.auction
          (h.calls call hcall)
      simp only [System.step, hi]
      refine ⟨hlog, hauction, ?_⟩
      intro c hc id hid
      rcases List.mem_append.mp hc with hc | hc
      · rcases List.mem_append.mp hc with hc | hc
        · exact (h.calls c (List.mem_of_mem_take hc) id hid).mono hsub
        · obtain ⟨c', hc', rfl⟩ := Option.map_eq_some_iff.mp (Option.mem_toList.mp hc)
          exact hnext c' hc' id hid
      · exact (h.calls c (List.mem_of_mem_drop hc) id hid).mono hsub

/-- Every submitted bid and every result in the log names an auction broadcast before it. -/
theorem event_log_causal (ids : ℕ → IdSource) (redispatchEvent : RedispatchEvent)
    (as : List Action) :
    CausalLog (run (System.step ids) (.initial redispatchEvent) as).frontend.events := by
  have h : Causal (run (System.step ids) (.initial redispatchEvent) as) :=
    run_invariant (fun _ a h => h.step a) (initial_causal redispatchEvent) as
  exact h.log

end GridFlex
