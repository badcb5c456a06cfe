import PixelMachine.Proofs.Following

/-! What is asked for of a machine, and that nothing but a look at the requests takes it away. A machine
that waits for a key does not wait any longer once something is asked for. -/
namespace PixelMachine

/-- The two kinds of requests. -/
inductive Wish where
  | pause
  | stop
  deriving DecidableEq

/-- Whether requests include one of a kind. -/
def Requests.has (r : Requests) : Wish → Bool
  | .pause => r.pause
  | .stop => r.stop

theorem Requests.has_or (a b : Requests) (w : Wish) : (a.or b).has w = (a.has w || b.has w) := by
  cases w with
  | pause => rfl
  | stop => rfl

namespace Control

/-- Someone asks for a pause or a stop that the machine has not seen yet: the request waits already,
or it is made before the machine's next look. -/
def Asks (c : Control) (w : Wish) : Prop := c.sync.pending.has w = true

/-- What is asked for before is still asked for. -/
def Keeps (c d : Control) : Prop := ∀ w, c.Asks w → d.Asks w

theorem Keeps.refl (c : Control) : c.Keeps c := fun _ h => h

theorem Keeps.trans {c d e : Control} (h : c.Keeps d) (h' : d.Keeps e) : c.Keeps e :=
  fun w hw => h' w (h w hw)

/-- A request that waits is not lost when others land. -/
theorem asks_of_pending {c : Control} {w : Wish} (h : c.pending.has w = true) : c.Asks w := by
  rcases c with ⟨pending, _ | ⟨r, rest⟩⟩
  · exact h
  · change (pending.or r).has w = true
    rw [Requests.has_or, h, Bool.true_or]

theorem keeps_sync (c : Control) : c.Keeps c.sync := fun _ h => asks_of_pending h

theorem keeps_request (c : Control) (r : Requests) : c.Keeps (c.request r) := by
  intro w h
  rcases c with ⟨pending, _ | ⟨q, rest⟩⟩
  · change pending.has w = true at h
    change (pending.or r).has w = true
    rw [Requests.has_or, h, Bool.true_or]
  · change (pending.or q).has w = true at h
    change ((pending.or r).or q).has w = true
    rw [Requests.has_or, Bool.or_eq_true] at h
    rw [Requests.has_or, Requests.has_or]
    rcases h with h | h
    · rw [h, Bool.true_or, Bool.true_or]
    · rw [h, Bool.or_true]

theorem seesAny_of_asks {c : Control} {w : Wish} (h : c.Asks w) : c.seesAny.1 = true := by
  have hlater : c.sync.Asks w := keeps_sync c w h
  unfold seesAny seesPause seesStop
  rcases hp : c.sync.pending.pause with _ | _
  · -- No pause is seen at the first look, so the request is a stop, which the second look sees.
    cases w with
    | pause =>
      change c.sync.pending.pause = true at h
      rw [hp] at h
      cases h
    | stop => exact hlater
  · rfl

theorem sync_arriving (c : Control) : c.sync.arriving = c.arriving.drop 1 := by
  rcases c with ⟨pending, _ | ⟨r, rest⟩⟩
  · rfl
  · rfl

/-- Where no request is seen, two looks have been made. -/
theorem seesPause_of_not_seesAny {c : Control} (h : c.seesAny.1 = false) : c.seesPause.1 = false := by
  unfold seesAny at h
  split at h
  · cases h
  · next heq => exact congrArg Prod.fst heq

theorem seesAny_snd_of_not_pause {c : Control} (h : c.seesPause.1 = false) :
    c.seesAny.2 = c.sync.sync := by
  have hp : c.sync.pending.pause = false := h
  unfold seesAny seesPause seesStop
  rw [hp]

/-- Where nobody plans a request, and those made now are none, nothing is left to be seen. -/
theorem seesAny_snd_of_none {c : Control} {r : Requests} (hc : c.arriving = [])
    (h : (c.request r).seesAny.1 = false) : (c.request r).seesAny.2 = c := by
  obtain ⟨⟨pause, stop⟩, arriving⟩ := c
  subst hc
  have hpause : (pause || r.pause) = false := seesPause_of_not_seesAny h
  have hstop : (stop || r.stop) = false := by
    simpa [seesAny, seesPause, seesStop, sync, request, Requests.or, hpause] using h
  rw [seesAny_snd_of_not_pause (seesPause_of_not_seesAny h)]
  change (⟨⟨pause || r.pause, stop || r.stop⟩, []⟩ : Control) = ⟨⟨pause, stop⟩, []⟩
  rw [hpause, hstop, (Bool.or_eq_false_iff.mp hpause).1, (Bool.or_eq_false_iff.mp hstop).1]

theorem keeps_seesAny (c : Control) : c.Keeps c.seesAny.2 := by
  unfold seesAny seesPause seesStop
  rcases c.sync.pending.pause with _ | _
  · exact (keeps_sync c).trans (keeps_sync c.sync)
  · exact keeps_sync c

/-- Taking away a pause leaves a stop. -/
theorem asks_stop_takePause {c : Control} (h : c.Asks .stop) : c.takePause.2.Asks .stop :=
  asks_of_pending h

/-- The requests without the stop that the next look would see. -/
def withoutStop (c : Control) : Control :=
  ⟨{ c.pending with stop := false }, c.arriving.modifyHead fun r => { r with stop := false }⟩

theorem takeStop_withoutStop (c : Control) : c.withoutStop.takeStop = (false, c.takeStop.2) := by
  rcases c with ⟨pending, _ | ⟨r, rest⟩⟩
  · rfl
  · rfl

end Control

namespace Machine

open Control

/-- A poll that brings neither a usable key nor an interruption. -/
inductive Round (m : Machine) : Machine → Prop where
  | intro : m.keyboard.poll.1.code? = none → m.halted = false → m.paused = false →
      m.polled.control.seesAny.1 = false →
      Round m { m.polled with control := m.polled.control.seesAny.2 }

abbrev Rounds : Machine → Machine → Prop := Relation.ReflTransGen Round

/-- The states of a machine that waits for a key, between its looks at the keyboard and at the
requests. -/
inductive Waits (m : Machine) : Machine → Prop where
  | polling {v : Machine} : Rounds m v → Waits m v
  | polled {v : Machine} : Rounds m v → v.keyboard.poll.1.code? = none → Waits m v.polled
  | looked {v : Machine} : Rounds m v → v.keyboard.poll.1.code? = none →
      v.polled.control.seesPause.1 = false →
      Waits m { v.polled with control := v.polled.control.seesPause.2 }

/-- What can still change while the machine waits. -/
def waitLength (m : Machine) : Nat := m.keyboard.script.length + m.control.arriving.length

theorem Waits.trace_eq {m x : Machine} (h : Waits m x) : x.trace = m.trace := by
  obtain ⟨v, hv, hx⟩ : ∃ v, Rounds m v ∧ x.trace = v.trace := by
    cases h with
    | polling hv | polled hv _ | looked hv _ _ => exact ⟨_, hv, rfl⟩
  induction hv with
  | refl => exact hx
  | tail _ hround ih =>
    cases hround
    exact ih hx

theorem awaitKeyWithin_of_round {m n : Machine} (h : Round m n) (fuel : Nat) :
    awaitKeyWithin (fuel + 1) m = awaitKeyWithin fuel n := by
  cases h with
  | intro hk hh hp hs =>
    rw [awaitKeyWithin_succ, hk]
    simp [hh, hp, hs]

/-- A wait that ends with its first poll. -/
theorem awaitKeyWithin_of_one {m n : Machine} (h : awaitKeyWithin 1 m = some n) (fuel : Nat) :
    awaitKeyWithin (fuel + 1) m = some n := by
  rw [awaitKeyWithin_succ] at h ⊢
  rcases hk : m.keyboard.poll.1.code? with _ | code
  · rw [hk] at h
    dsimp only at h ⊢
    split at h
    · next hflags => rw [if_pos hflags, h]
    · next hflags =>
      split at h
      · next hs => rw [if_neg hflags, if_pos hs, h]
      · cases h
  · rw [hk] at h
    exact h

/-- As long as anything can change, a round uses up some of it. -/
theorem Round.shrinks {m n : Machine} (h : Round m n) : n.waitLength < m.waitLength ∨ n = m := by
  cases h with
  | intro _ _ _ hs =>
    have htwice := seesAny_snd_of_not_pause (seesPause_of_not_seesAny hs)
    by_cases hleft : 0 < m.waitLength
    · left
      have hscript : m.polled.keyboard.script = m.keyboard.script.drop 1 := by
        simp only [Machine.polled, Keyboard.poll_snd]
      have harriving : m.polled.control.seesAny.2.arriving = m.control.arriving.drop 2 := by
        rw [htwice, sync_arriving, sync_arriving, List.drop_drop]
        rfl
      simp only [waitLength, hscript, harriving, List.length_drop] at hleft ⊢
      omega
    · -- Nothing changes any more: no keys are left, nobody plans a request, and none is made.
      right
      have hempty : m.keyboard.script.length = 0 ∧ m.control.arriving.length = 0 := by
        simp only [waitLength] at hleft
        omega
      have hscript := List.eq_nil_of_length_eq_zero hempty.1
      have hkeyboard : m.keyboard.poll.2 = m.keyboard := by
        rw [Keyboard.poll_snd, hscript, List.drop_nil, ← hscript]
      have hcontrol : m.polled.control.seesAny.2 = m.control :=
        seesAny_snd_of_none (List.eq_nil_of_length_eq_zero hempty.2) hs
      rw [hcontrol, Machine.polled, hkeyboard]

/-- The bound on the polls never cuts a wait short that would end by itself. -/
theorem awaitKeyWithin_of_rounds {m v n : Machine} {fuel : Nat} (h : Rounds m v)
    (hv : awaitKeyWithin 1 v = some n) (hf : m.waitLength + 1 ≤ fuel) :
    awaitKeyWithin fuel m = some n := by
  induction h using Relation.ReflTransGen.head_induction_on generalizing fuel with
  | refl =>
    obtain ⟨fuel, rfl⟩ : ∃ k, fuel = k + 1 := ⟨fuel - 1, by omega⟩
    exact awaitKeyWithin_of_one hv fuel
  | head hround _ ih =>
    rcases hround.shrinks with hless | rfl
    · obtain ⟨fuel, rfl⟩ : ∃ k, fuel = k + 1 := ⟨fuel - 1, by omega⟩
      rw [awaitKeyWithin_of_round hround]
      exact ih (by omega)
    · exact ih hf

theorem Rounds.flags {m v : Machine} (h : Rounds m v) :
    v.halted = m.halted ∧ v.paused = m.paused := by
  induction h with
  | refl => exact ⟨rfl, rfl⟩
  | tail _ hround ih =>
    cases hround
    exact ih

/-- Whoever asks for something while the machine polls ends the wait with that poll. -/
theorem ends_of_asks {v : Machine} {w : Wish} (h : v.polled.control.Asks w) :
    ∃ n, awaitKeyWithin 1 v = some n ∧ n.control.Asks w := by
  rw [awaitKeyWithin_succ]
  rcases hk : v.keyboard.poll.1.code? with _ | code
  · dsimp only
    split
    · exact ⟨_, rfl, h⟩
    · rw [if_pos (seesAny_of_asks h)]
      exact ⟨_, rfl, keeps_seesAny _ w h⟩
  · exact ⟨_, rfl, h⟩

/-- A wait ends once someone asks for something, whatever the machine looks at in that moment. -/
theorem awaitKey_of_asks {m x : Machine} {w : Wish} (hh : m.halted = false) (hp : m.paused = false)
    (hx : Waits m x) (h : x.control.Asks w) : ∃ n, m.awaitKey = some n ∧ n.control.Asks w := by
  have hlong {v : Machine} (hv : Rounds m v) (ha : v.polled.control.Asks w) :
      ∃ n, m.awaitKey = some n ∧ n.control.Asks w := by
    obtain ⟨n, hn, hask⟩ := ends_of_asks ha
    exact ⟨n, awaitKeyWithin_of_rounds hv hn (Nat.le_refl _), hask⟩
  cases hx with
  | polling hv => exact hlong hv (keeps_request _ _ w h)
  | polled hv _ => exact hlong hv h
  | @looked v hv hk hpause =>
    have hnext : v.polled.control.seesAny.2.pending.has w = true := by
      rw [seesAny_snd_of_not_pause hpause]
      exact h
    rcases hs : v.polled.control.seesAny.1 with _ | _
    · -- The look for a stop came too early, or the request is a pause: the next poll sees it.
      obtain ⟨hvh, hvp⟩ := hv.flags
      have hround : Round v _ := .intro hk (hvh.trans hh) (hvp.trans hp) hs
      exact hlong (hv.tail hround) (keeps_request _ _ w (asks_of_pending hnext))
    · have hone : awaitKeyWithin 1 v =
          some { v.polled with control := v.polled.control.seesAny.2 } := by
        obtain ⟨hvh, hvp⟩ := hv.flags
        rw [awaitKeyWithin_succ, hk]
        simp [hvh, hvp, hh, hp, hs]
      exact ⟨_, awaitKeyWithin_of_rounds hv hone (Nat.le_refl _), asks_of_pending hnext⟩

theorem keeps_awaitKeyWithin {fuel : Nat} {m n : Machine} (h : awaitKeyWithin fuel m = some n) :
    m.control.Keeps n.control := by
  induction fuel generalizing m with
  | zero => cases h
  | succ fuel ih =>
    have hpolled : m.control.Keeps m.polled.control := keeps_request _ _
    have hseen := hpolled.trans (keeps_seesAny m.polled.control)
    rw [awaitKeyWithin_succ] at h
    split at h
    · cases h
      exact hpolled
    · split at h
      · cases h
        exact hpolled
      · split at h
        · cases h
          exact hseen
        · exact hseen.trans (ih h)

theorem keeps_say (m : Machine) (texts : List String) : m.control.Keeps (m.say texts).control := by
  induction texts generalizing m with
  | nil => exact .refl _
  | cons t texts ih =>
    have hfirst := keeps_request m.control (m.log.requestsOf t)
    exact hfirst.trans
      (ih { m with log := m.log.append t, control := m.control.request (m.log.requestsOf t) })

theorem keeps_perform {m n : Machine} {effect : Effect} (h : m.perform effect = some n) :
    m.control.Keeps n.control := by
  cases effect with
  | awaitKey => exact keeps_awaitKeyWithin h
  | print texts =>
    cases h
    exact keeps_say m texts
  | next | jump | call | ret | halt | store | paint | roll =>
    cases h
    exact .refl _

/-- No instruction takes a request away. -/
theorem keeps_step {m m' : Machine} {r : Except Fault Unit} (h : m.step = some (r, m')) :
    m.control.Keeps m'.control := by
  cases step_eq_some_iff.mp h with
  | halted | misplaced | failed => exact .refl _
  | done _ _ _ hm =>
    have hbegun := keeps_perform hm
    exact hbegun

/-- A step starts one instruction at most. -/
theorem instructions_step {m m' : Machine} {r : Except Fault Unit} (h : m.step = some (r, m')) :
    m'.trace.instructions ≤ m.trace.instructions + 1 := by
  cases step_eq_some_iff.mp h with
  | halted | misplaced => exact Nat.le_succ _
  | failed => exact Nat.le_refl _
  | @done index i effect stack n _ _ _ hm =>
    have htrace : n.trace = m.trace.record index i.opcode := (perform_keeps hm).2.2.2.2.1
    change n.trace.instructions ≤ _
    rw [htrace]
    exact Nat.le_refl _

/-- An instruction that waits for a key comes to an end once someone asks for something. -/
theorem step_of_waits {a x : Machine} {index : Nat} {i : Instruction} {w : Wish}
    (hh : a.halted = false) (hp : a.paused = false) (hc : a.current = .ok (index, i))
    (hop : i.opcode = .getchar) (hx : Waits (a.begun index i a.stack) x) (h : x.control.Asks w) :
    ∃ m', a.step = some (.ok (), m') ∧ m'.control.Asks w := by
  obtain ⟨n, hn, hask⟩ := awaitKey_of_asks (m := a.begun index i a.stack) hh hp hx h
  exact ⟨n.measured, step_eq_some_iff.mpr (.done hh hc (plan_getchar a index hop a.stack) hn), hask⟩

/-- So does every other instruction. -/
theorem step_of_asks {a : Machine} {w : Wish} (hh : a.halted = false) (hp : a.paused = false)
    (h : a.control.Asks w) : ∃ r m', a.step = some (r, m') ∧ m'.control.Asks w := by
  suffices hsome : ∃ o, a.step = some o by
    obtain ⟨⟨r, m'⟩, hs⟩ := hsome
    exact ⟨r, m', hs, keeps_step hs w h⟩
  rw [step_of_running hh]
  rcases hc : a.current with e | ⟨index, i⟩
  · exact ⟨_, rfl⟩
  · rcases hplan : plan a index i a.stack with ⟨e, stack⟩ | ⟨effect, stack⟩
    · simp only [hplan]
      exact ⟨_, rfl⟩
    · simp only [hplan]
      cases effect with
      | awaitKey =>
        have hwait : (a.begun index i stack).control.Asks w := h
        obtain ⟨n, hn, _⟩ := awaitKey_of_asks (m := a.begun index i stack) hh hp (.polling .refl) hwait
        exact ⟨_, by rw [perform, hn]; rfl⟩
      | _ => exact ⟨_, rfl⟩

end Machine

end PixelMachine
