import GridFlex.Frontend.Segments
import GridFlex.Lib.Transition

/-! Any number of controller calls in flight, their segments in any order. -/
namespace GridFlex
open Transition

/-- A call in flight. `startedAt` is read by statements only: it is the number of resets and
broadcasts that had replaced the model's auction when the call began. -/
structure Call where
  suspended : Suspended
  startedAt : ℕ

structure System where
  frontend : Frontend
  calls : List Call
  replacements : ℕ

inductive Action where
  | start (op : Operation)
  | resume (call : ℕ) (reply : Reply)

def Action.reply : Action → Option Reply
  | .start _ => none
  | .resume _ reply => some reply

namespace System

def initial (redispatchEvent : RedispatchEvent) : System := ⟨.initial redispatchEvent, [], 0⟩

/-- The call that an action continues. -/
def callOf (s : System) : Action → Option Call
  | .start _ => none
  | .resume call _ => s.calls[call]?

def step (ids : ℕ → IdSource) (s : System) : Action → System
  | .start op =>
      let (f, next) := s.frontend.begin ids op
      { s with frontend := f, calls := s.calls ++ (next.map (⟨·, s.replacements⟩)).toList }
  | .resume i reply =>
      match s.calls[i]? with
      | none => s
      | some call =>
          let (f, next) := s.frontend.resume ids call.suspended reply
          { frontend := f
            calls := s.calls.take i ++ (next.map (⟨·, call.startedAt⟩)).toList ++
              s.calls.drop (i + 1)
            replacements :=
              s.replacements + if call.suspended.replaces reply then 1 else 0 }

end System

/-- What one action does, with the calls in flight up to their order: one call, `call` before
and `next` after, and `rest` untouched. -/
structure Move (ids : ℕ → IdSource) (s : System) (a : Action) (s' : System) where
  call : Option Call
  next : Option Suspended
  replaced : Bool
  rest : List Call
  callOf_eq : s.callOf a = call
  segment : Segment ids s.frontend a.reply (call.map Call.suspended) s'.frontend next replaced
  calls_perm : s.calls.Perm (call.toList ++ rest)
  calls_perm' : s'.calls.Perm
    ((next.map (⟨·, (call.map Call.startedAt).getD s.replacements⟩)).toList ++ rest)
  replacements_eq : s'.replacements = s.replacements + if replaced then 1 else 0

theorem System.step_cases (ids : ℕ → IdSource) (s : System) (a : Action) :
    s.step ids a = s ∨ Nonempty (Move ids s a (s.step ids a)) := by
  cases a with
  | start op =>
    right
    exact ⟨none, _, false, s.calls, rfl, begin_segment s.frontend op, .refl _,
      List.perm_append_comm, rfl⟩
  | resume i reply =>
    cases hc : s.calls[i]? with
    | none => exact Or.inl (by simp [step, hc])
    | some call =>
      right
      obtain ⟨hi, rfl⟩ := List.getElem?_eq_some_iff.mp hc
      have hs : s.calls = s.calls.take i ++ s.calls[i] :: s.calls.drop (i + 1) := by simp
      refine ⟨some s.calls[i], (s.frontend.resume ids s.calls[i].suspended reply).2,
        s.calls[i].suspended.replaces reply, s.calls.take i ++ s.calls.drop (i + 1), hc, ?_, ?_,
        ?_, ?_⟩
      · simpa [step, hc, Action.reply] using resume_segment s.frontend s.calls[i].suspended reply
      · exact (List.Perm.of_eq hs).trans List.perm_middle
      · simp only [step, hc, List.append_assoc]
        exact List.perm_append_comm_assoc _ _ _
      · simp [step, hc]

/-- What the start and every settled await keep of the page is kept by every action. -/
theorem System.step_frontend {ids : ℕ → IdSource} {I : Frontend → Prop}
    (hbegin : ∀ f op, I f → I (f.begin ids op).1)
    (hresume : ∀ f c reply, I f → I (f.resume ids c reply).1) {s : System} (h : I s.frontend)
    (a : Action) : I (s.step ids a).frontend := by
  cases a with
  | start op => exact hbegin s.frontend op h
  | resume i reply =>
    cases hi : s.calls[i]? with
    | none =>
      simp only [System.step, hi]
      exact h
    | some call =>
      simp only [System.step, hi]
      exact hresume s.frontend call.suspended reply h

theorem filterMap_toList {α β : Type*} (f : α → Option β) (o : Option α) :
    o.toList.filterMap f = (o.bind f).toList := by
  cases o with
  | none => rfl
  | some a => cases h : f a <;> simp [h]

/-- What the calls in flight hold, read off their roles. -/
def System.collect {β : Type*} (s : System) (tag : Role → Option β) : List β :=
  s.calls.filterMap fun c => tag c.suspended.role

namespace Move

variable {ids : ℕ → IdSource} {s s' : System} {a : Action} {β : Type*}

theorem collect_perm (m : Move ids s a s') (tag : Role → Option β) :
    (s.collect tag).Perm ((m.call.bind fun c => tag c.suspended.role).toList ++
      m.rest.filterMap fun c => tag c.suspended.role) := by
  have h := m.calls_perm.filterMap fun c => tag c.suspended.role
  rwa [List.filterMap_append, filterMap_toList] at h

theorem collect_perm' (m : Move ids s a s') (tag : Role → Option β) :
    (s'.collect tag).Perm ((m.next.bind fun c => tag c.role).toList ++
      m.rest.filterMap fun c => tag c.suspended.role) := by
  have h := m.calls_perm'.filterMap fun c => tag c.suspended.role
  rwa [List.filterMap_append, filterMap_toList, Option.bind_map] at h

theorem rest_subperm (m : Move ids s a s') (tag : Role → Option β) :
    (m.rest.filterMap fun c => tag c.suspended.role).Subperm (s.collect tag) :=
  (List.sublist_append_right _ _).subperm.trans (m.collect_perm tag).symm.subperm

theorem mem_collect (m : Move ids s a s') {tag : Role → Option β} {c : Suspended} {x : β}
    (hc : c ∈ m.call.map Call.suspended) (hx : tag c.role = some x) : x ∈ s.collect tag := by
  obtain ⟨call, hcall, rfl⟩ := Option.map_eq_some_iff.mp hc
  rw [(m.collect_perm tag).mem_iff, hcall, Option.bind_some, hx]
  exact List.mem_cons_self

theorem mem_collect' (m : Move ids s a s') {tag : Role → Option β} {x : β}
    (hx : x ∈ s'.collect tag) :
    (∃ c' ∈ m.next, tag c'.role = some x) ∨ x ∈ s.collect tag := by
  rw [(m.collect_perm' tag).mem_iff, List.mem_append, Option.mem_toList,
    Option.bind_eq_some_iff] at hx
  exact hx.imp_right fun h => (m.rest_subperm tag).subset h

/-- A call that keeps its tag, or loses it, adds nothing to what is held. -/
theorem collect_subperm (m : Move ids s a s') (tag : Role → Option β)
    (h : ∀ c' ∈ m.next, tag c'.role = none ∨
      ∃ c ∈ m.call.map Call.suspended, tag c'.role = tag c.role) :
    (s'.collect tag).Subperm (s.collect tag) := by
  refine ((m.collect_perm' tag).subperm.trans ?_).trans (m.collect_perm tag).symm.subperm
  apply List.Sublist.subperm
  apply List.Sublist.append_right
  cases hn : m.next with
  | none => simp
  | some c' =>
    rcases h c' hn with hnone | ⟨c, hc, he⟩
    · simp [hnone]
    · obtain ⟨call, hcall, rfl⟩ := Option.map_eq_some_iff.mp hc
      simp [hcall, he]

/-- A count that is still current after a move was current before it, and nothing was
replaced. -/
theorem not_replaced (m : Move ids s a s') {k : ℕ} (hk : k ≤ s.replacements)
    (h : k = s'.replacements) : m.replaced = false ∧ k = s.replacements := by
  have hrep := m.replacements_eq
  cases hr : m.replaced with
  | false =>
    simp only [hr, Bool.false_eq_true, ↓reduceIte] at hrep
    exact ⟨rfl, by omega⟩
  | true =>
    simp only [hr, ↓reduceIte] at hrep
    omega

theorem call_mem (m : Move ids s a s') {c : Call} (hc : m.call = some c) : c ∈ s.calls := by
  rw [m.calls_perm.mem_iff, hc]
  exact List.mem_cons_self

theorem mem_calls (m : Move ids s a s') {c' : Call} (hc' : c' ∈ s'.calls) :
    c' ∈ s.calls ∨ (m.next = some c'.suspended ∧
      c'.startedAt = (m.call.map Call.startedAt).getD s.replacements) := by
  rw [m.calls_perm'.mem_iff, List.mem_append, Option.mem_toList, Option.map_eq_some_iff] at hc'
  rcases hc' with ⟨n, hn, rfl⟩ | hr
  · exact Or.inr ⟨hn, rfl⟩
  · left
    rw [m.calls_perm.mem_iff]
    exact List.mem_append_right _ hr

/-- A call in flight after a move is new, or had been started just when an earlier one was. -/
theorem call_origin (m : Move ids s a s') {c' : Call} (hc' : c' ∈ s'.calls) :
    c' ∈ s.calls ∨
    (m.next = some c'.suspended ∧ m.call = none ∧ c'.startedAt = s.replacements) ∨
    ∃ c ∈ s.calls, m.call = some c ∧ m.next = some c'.suspended ∧ c'.startedAt = c.startedAt := by
  rcases m.mem_calls hc' with h | ⟨hn, hst⟩
  · exact Or.inl h
  · cases hc : m.call with
    | none => exact Or.inr (Or.inl ⟨hn, rfl, by rw [hst, hc]; rfl⟩)
    | some c => exact Or.inr (Or.inr ⟨c, m.call_mem hc, rfl, hn, by rw [hst, hc]; rfl⟩)

end Move

end GridFlex
