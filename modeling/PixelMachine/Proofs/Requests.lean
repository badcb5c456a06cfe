import PixelMachine.Proofs.Loop

/-! Which requests a machine can meet. A kind of requests that nothing around the machine leaves is
never left while it runs. -/
namespace PixelMachine

/-- A kind of requests that is kept when requests are put together and when some are taken away. -/
structure Requests.Closed (P : Requests → Prop) : Prop where
  empty : P {}
  or : ∀ a b, P a → P b → P (a.or b)
  withoutPause : ∀ r, P r → P { r with pause := false }
  withoutStop : ∀ r, P r → P { r with stop := false }

theorem Requests.closed_empty : Requests.Closed (· = {}) where
  empty := rfl
  or := by
    rintro a b rfl rfl
    rfl
  withoutPause := by
    rintro r rfl
    rfl
  withoutStop := by
    rintro r rfl
    rfl

theorem Requests.closed_stop_eq_false : Requests.Closed (fun r => r.stop = false) where
  empty := rfl
  or := by
    intro a b ha hb
    simp only [Requests.or, ha, hb, Bool.or_self]
  withoutPause := fun _ h => h
  withoutStop := fun _ _ => rfl

theorem Requests.closed_pause_eq_false : Requests.Closed (fun r => r.pause = false) where
  empty := rfl
  or := by
    intro a b ha hb
    simp only [Requests.or, ha, hb, Bool.or_self]
  withoutPause := fun _ _ => rfl
  withoutStop := fun _ h => h

/-- All requests that wait or arrive are of a kind. -/
structure Control.Meets (P : Requests → Prop) (c : Control) : Prop where
  pending : P c.pending
  arriving : ∀ r ∈ c.arriving, P r

/-- All requests that polls make are of a kind. -/
structure Keyboard.Meets (P : Requests → Prop) (k : Keyboard) : Prop where
  script : ∀ p ∈ k.script, P p.requests
  idle : P k.idle

/-- All requests that texts trigger are of a kind. -/
def Log.Meets (P : Requests → Prop) (l : Log) : Prop := ∀ t ∈ l.triggers, P t.2

variable {P : Requests → Prop}

namespace Control

theorem Meets.sync (hP : Requests.Closed P) {c : Control} (h : c.Meets P) : c.sync.Meets P := by
  obtain ⟨pending, _ | ⟨r, rest⟩⟩ := c
  · exact h
  · exact ⟨hP.or _ _ h.pending (h.arriving r List.mem_cons_self),
      fun q hq => h.arriving q (List.mem_cons_of_mem r hq)⟩

theorem sync_arriving_subset (c : Control) : c.sync.arriving ⊆ c.arriving := by
  obtain ⟨pending, _ | ⟨r, rest⟩⟩ := c
  · exact List.Subset.refl _
  · exact List.subset_cons_self r rest

theorem Meets.request (hP : Requests.Closed P) {c : Control} (h : c.Meets P) {r : Requests}
    (hr : P r) : (c.request r).Meets P :=
  ⟨hP.or _ _ h.pending hr, h.arriving⟩

theorem Meets.takePause (hP : Requests.Closed P) {c : Control} (h : c.Meets P) :
    c.takePause.2.Meets P :=
  ⟨hP.withoutPause _ (h.sync hP).pending, (h.sync hP).arriving⟩

theorem Meets.takeStop (hP : Requests.Closed P) {c : Control} (h : c.Meets P) :
    c.takeStop.2.Meets P :=
  ⟨hP.withoutStop _ (h.sync hP).pending, (h.sync hP).arriving⟩

theorem Meets.seesAny (hP : Requests.Closed P) {c : Control} (h : c.Meets P) :
    c.seesAny.2.Meets P := by
  unfold Control.seesAny Control.seesPause Control.seesStop
  rcases c.sync.pending.pause with _ | _
  · exact (h.sync hP).sync hP
  · exact h.sync hP

/-- Clearing forgets what waited, so that only what arrives counts. -/
theorem meets_clear (hP : Requests.Closed P) {c : Control} (h : ∀ r ∈ c.arriving, P r) :
    c.clear.Meets P := by
  obtain ⟨pending, _ | ⟨r, _ | ⟨q, rest⟩⟩⟩ := c
  · exact ⟨hP.empty, h⟩
  · exact ⟨hP.empty, by simp [clear, takeStop, takePause, sync]⟩
  · -- Each of the two looks lets a request land. The second one takes away stops only, so a pause
    -- that lands with it is left.
    refine ⟨?_, ?_⟩
    · have hq := hP.withoutStop _ (h q (by simp))
      simpa [clear, takeStop, takePause, sync, Requests.or] using hq
    · intro x hx
      exact h x (List.mem_cons_of_mem r (List.mem_cons_of_mem q hx))

end Control

theorem Keyboard.Meets.poll {k : Keyboard} (h : k.Meets P) :
    P k.poll.1.requests ∧ k.poll.2.Meets P := by
  obtain ⟨_ | ⟨p, rest⟩, idle⟩ := k
  · exact ⟨h.idle, h⟩
  · exact ⟨h.script p List.mem_cons_self,
      fun q hq => h.script q (List.mem_cons_of_mem p hq), h.idle⟩

theorem Log.Meets.append {l : Log} (h : l.Meets P) (t : String) : (l.append t).Meets P := by
  unfold Log.append
  split
  · exact h
  · exact h

theorem Log.Meets.requestsOf (hP : Requests.Closed P) {l : Log} (h : l.Meets P) (t : String) :
    P (l.requestsOf t) := by
  have hfold (ts : List (String × Requests)) (hts : ∀ e ∈ ts, P e.2) (r : Requests) (hr : P r) :
      P (ts.foldl (fun r e => if e.1 = t then r.or e.2 else r) r) := by
    induction ts generalizing r with
    | nil => exact hr
    | cons e ts ih =>
      refine ih (fun x hx => hts x (List.mem_cons_of_mem e hx)) _ ?_
      dsimp only
      split
      · exact hP.or _ _ hr (hts e List.mem_cons_self)
      · exact hr
  exact hfold l.triggers h {} hP.empty

namespace Machine

/-- All requests that the machine can meet are of a kind. -/
structure Meets (P : Requests → Prop) (m : Machine) : Prop where
  control : m.control.Meets P
  keyboard : m.keyboard.Meets P
  log : m.log.Meets P

theorem Meets.polled (hP : Requests.Closed P) {m : Machine} (h : m.Meets P) : m.polled.Meets P :=
  ⟨h.control.request hP h.keyboard.poll.1, h.keyboard.poll.2, h.log⟩

theorem Meets.awaitKeyWithin (hP : Requests.Closed P) {fuel : Nat} {m m' : Machine} (h : m.Meets P)
    (hw : awaitKeyWithin fuel m = some m') : m'.Meets P := by
  induction fuel generalizing m with
  | zero => cases hw
  | succ fuel ih =>
    have hpolled := h.polled hP
    have hseen : Meets P { m.polled with control := m.polled.control.seesAny.2 } :=
      ⟨hpolled.control.seesAny hP, hpolled.keyboard, hpolled.log⟩
    rw [awaitKeyWithin_succ] at hw
    split at hw
    · cases hw
      exact ⟨hpolled.control, hpolled.keyboard, hpolled.log⟩
    · split at hw
      · cases hw
        exact hpolled
      · split at hw
        · cases hw
          exact hseen
        · exact ih hseen hw

theorem Meets.say (hP : Requests.Closed P) {m : Machine} (h : m.Meets P) (texts : List String) :
    (m.say texts).Meets P := by
  induction texts generalizing m with
  | nil => exact h
  | cons t texts ih =>
    have ht : Meets P
        { m with log := m.log.append t, control := m.control.request (m.log.requestsOf t) } :=
      ⟨h.control.request hP (h.log.requestsOf hP t), h.keyboard, h.log.append t⟩
    exact ih ht

theorem Meets.perform (hP : Requests.Closed P) {m m' : Machine} {effect : Effect} (h : m.Meets P)
    (hm : m.perform effect = some m') : m'.Meets P := by
  cases effect with
  | awaitKey => exact h.awaitKeyWithin hP hm
  | print texts =>
    cases hm
    have hsaid := h.say hP texts
    exact ⟨hsaid.control, hsaid.keyboard, hsaid.log⟩
  | next | jump | call | ret | halt | store | paint | roll =>
    cases hm
    exact ⟨h.control, h.keyboard, h.log⟩

theorem Meets.step (hP : Requests.Closed P) {m m' : Machine} {r : Except Fault Unit} (h : m.Meets P)
    (hs : m.step = some (r, m')) : m'.Meets P := by
  cases step_eq_some_iff.mp hs with
  | halted _ => exact h
  | misplaced | failed => exact ⟨h.control, h.keyboard, h.log⟩
  | @done index i effect stack _ _ _ _ hm =>
    have hbegun : (m.begun index i stack).Meets P := ⟨h.control, h.keyboard, h.log⟩
    have hdone := hbegun.perform hP hm
    exact ⟨hdone.control, hdone.keyboard, hdone.log⟩

theorem Meets.setHalted {m : Machine} (h : m.Meets P) (b : Bool) : (m.setHalted b).Meets P :=
  ⟨h.control, h.keyboard, h.log⟩

theorem Meets.setPaused {m : Machine} (h : m.Meets P) (b : Bool) : (m.setPaused b).Meets P :=
  ⟨h.control, h.keyboard, h.log⟩

theorem Meets.applyRequests (hP : Requests.Closed P) {m : Machine} (h : m.Meets P) :
    m.applyRequests.Meets P := by
  refine ⟨?_, ?_, ?_⟩
  · rw [control_applyRequests]
    exact (h.control.takeStop hP).takePause hP
  · rw [keyboard_applyRequests]
    exact h.keyboard
  · rw [log_applyRequests]
    exact h.log

theorem Meets.checkBreakpoint {m : Machine} (h : m.Meets P) : m.checkBreakpoint.Meets P := by
  rcases checkBreakpoint_cases m with hc | ⟨_, _, _, hc⟩
  · rw [hc]
    exact h
  · rw [hc]
    exact ⟨h.control, h.keyboard, h.log⟩

theorem Meets.turn (hP : Requests.Closed P) {depth : Option Nat} {m m' : Machine} (h : m.Meets P)
    (ht : Turn depth m m') : m'.Meets P := by
  obtain ⟨_, _, hs, _⟩ := ht
  exact ((h.applyRequests hP).step hP hs).checkBreakpoint

theorem Meets.turns (hP : Requests.Closed P) {depth : Option Nat} {m m' : Machine} (h : m.Meets P)
    (ht : Turns depth m m') : m'.Meets P := by
  induction ht with
  | refl => exact h
  | tail _ ht ih => exact ih.turn hP ht

/-- All requests that are still to be made are of a kind, whatever waits now. -/
structure Expects (P : Requests → Prop) (m : Machine) : Prop where
  arriving : ∀ r ∈ m.control.arriving, P r
  keyboard : m.keyboard.Meets P
  log : m.log.Meets P

/-- A reset forgets the requests that wait. -/
theorem meets_reset (hP : Requests.Closed P) {m : Machine} (h : m.Expects P) : m.reset.Meets P :=
  ⟨Control.meets_clear hP h.arriving, h.keyboard, h.log⟩

theorem Expects.applyRequests {m : Machine} (h : m.Expects P) : m.applyRequests.Expects P := by
  refine ⟨?_, ?_, ?_⟩
  · intro r hr
    rw [control_applyRequests] at hr
    have hstop := Control.sync_arriving_subset m.control.takeStop.2 hr
    exact h.arriving r (Control.sync_arriving_subset m.control hstop)
  · rw [keyboard_applyRequests]
    exact h.keyboard
  · rw [log_applyRequests]
    exact h.log

end Machine

end PixelMachine
