import PixelMachine.Proofs.Requests
import PixelMachine.Proofs.Traces

/-! An undisturbed machine follows one that is interrupted now and then: whatever the second executes,
the first executes as well, but for attempts to read a key that were interrupted. -/
namespace PixelMachine

/-- The keys that the polls to come bring. -/
def Keyboard.keys (k : Keyboard) : List (Option Key) := k.script.map (·.key)

theorem Keyboard.script_of_keys {k : Keyboard} {before after : List (Option Key)} {key : Option Key}
    (h : k.keys = before ++ key :: after) :
    ∃ passed poll rest, k.script = passed ++ poll :: rest ∧ passed.map (·.key) = before ∧
      poll.key = key ∧ rest.map (·.key) = after := by
  obtain ⟨passed, tail, hs, hpassed, htail⟩ := List.map_eq_append_iff.mp h
  obtain ⟨poll, rest, rfl, hpoll, hrest⟩ := List.map_eq_cons_iff.mp htail
  exact ⟨passed, poll, rest, hs, hpassed, hpoll, hrest⟩

/-- Two machines at the same point of the same computation. Their keys and statistics may differ, and
what texts trigger. -/
structure Work.Alike (v w : Work) : Prop where
  program : v.program = w.program
  config : v.config = w.config
  screen : v.screen = w.screen
  random : v.random = w.random
  stack : v.stack = w.stack
  frames : v.frames = w.frames
  returns : v.returns = w.returns
  counter : v.counter = w.counter
  text : v.log.text = w.log.text
  kept : v.log.kept = w.log.kept

/-- Both have read the same keys, and the second has executed the same instructions but for more
attempts to read a key. -/
structure Work.Level (v w : Work) : Prop where
  keys : v.keyboard.keys = w.keyboard.keys
  trace : ∃ extra, Trace.Extends extra v.trace w.trace

/-- The second was interrupted while it waited for a key. The first has not begun to wait, and will
pass over the polls that the second has used up. -/
structure Work.Lags (v w : Work) : Prop where
  waits : 0 ≤ v.counter ∧
    ∃ i, v.program.instruction? v.counter.toNat = some i ∧ i.opcode = .getchar
  keys : ∃ passed, v.keyboard.keys = passed ++ w.keyboard.keys ∧
    ∀ key ∈ passed, key.bind Key.code? = none
  trace : ∃ extra, Trace.Extends extra
    (v.trace.visit v.counter.toNat v.stack.length v.frames.length v.returns.length) w.trace

theorem Log.append_alike {l l' : Log} (htext : l.text = l'.text) (hkept : l.kept = l'.kept)
    (texts : List String) :
    (texts.foldl Log.append l).text = (texts.foldl Log.append l').text ∧
      (texts.foldl Log.append l).kept = (texts.foldl Log.append l').kept := by
  induction texts generalizing l l' with
  | nil => exact ⟨htext, hkept⟩
  | cons t texts ih =>
    apply ih
    · unfold Log.append
      rw [hkept]
      split
      · simp only [htext]
      · exact htext
    · unfold Log.append
      rw [hkept]
      split
      · rfl
      · exact hkept

namespace Machine

theorem current_congr {a b : Machine} (h : a.work.Alike b.work) : a.current = b.current := by
  have hprogram : a.program = b.program := h.program
  have hcounter : a.counter = b.counter := h.counter
  unfold current
  rw [hprogram, hcounter]

theorem plan_alike {a b : Machine} (h : a.work.Alike b.work) (index : Nat) (i : Instruction) :
    plan a index i a.stack = plan b index i b.stack := by
  have hstack : a.stack = b.stack := h.stack
  rw [plan_congr h.program h.config h.screen h.random h.frames h.returns index i, hstack]

/-- An instruction that waits for a key takes no operand and cannot fail. -/
theorem plan_getchar (m : Machine) (index : Nat) {i : Instruction} (hi : i.opcode = .getchar)
    (s : List Value) : plan m index i s = .ok (.awaitKey, s) := by
  obtain ⟨op, operand⟩ := i
  subst hi
  rfl

/-- Alike machines carry out an effect alike, unless it is to wait for a key. -/
theorem perform_alike {a b b' : Machine} {effect : Effect} (hw : a.work.Alike b.work)
    (hh : a.halted = b.halted) (he : effect ≠ .awaitKey) (h : b.perform effect = some b') :
    ∃ a', a.perform effect = some a' ∧ a'.work.Alike b'.work ∧ a'.halted = b'.halted ∧
      a'.keyboard = a.keyboard ∧ b'.keyboard = b.keyboard := by
  have hnext : a.counter + 1 = b.counter + 1 := congrArg (· + 1) hw.counter
  cases effect with
  | next =>
    cases h
    exact ⟨_, rfl, { hw with counter := hnext }, hh, rfl, rfl⟩
  | jump target =>
    cases h
    exact ⟨_, rfl, { hw with counter := rfl }, hh, rfl, rfl⟩
  | call target arguments =>
    cases h
    refine ⟨_, rfl, { hw with frames := ?_, returns := ?_, counter := rfl }, hh, rfl, rfl⟩
    · exact congrArg (·.enter (arguments.map some)) hw.frames
    · exact congrArg₂ (fun (c : Int) rs => c.toNat :: rs) hnext hw.returns
  | ret target rest =>
    cases h
    exact ⟨_, rfl, { hw with returns := rfl, counter := rfl }, hh, rfl, rfl⟩
  | halt =>
    cases h
    exact ⟨_, rfl, { hw with }, rfl, rfl, rfl⟩
  | store frames =>
    cases h
    exact ⟨_, rfl, { hw with frames := rfl, counter := hnext }, hh, rfl, rfl⟩
  | paint region colour =>
    cases h
    have hscreen := congrArg (·.paint region colour) hw.screen
    exact ⟨_, rfl, { hw with screen := hscreen, counter := hnext }, hh, rfl, rfl⟩
  | print texts =>
    cases h
    obtain ⟨htext, hkept⟩ := Log.append_alike hw.text hw.kept texts
    refine ⟨_, rfl, ?_⟩
    rw [say_eq, say_eq]
    exact ⟨{ hw with counter := hnext, text := htext, kept := hkept }, hh, rfl, rfl⟩
  | roll random =>
    cases h
    exact ⟨_, rfl, { hw with random := rfl, counter := hnext }, hh, rfl, rfl⟩
  | awaitKey => exact absurd rfl he

/-- Where nobody makes requests, waiting is not interrupted: the next usable key is read. -/
theorem awaitKeyWithin_of_key {fuel : Nat} {m : Machine} {passed rest : List Poll} {poll : Poll}
    {code : Nat} (hquiet : m.Meets (· = {})) (hh : m.halted = false) (hp : m.paused = false)
    (hs : m.keyboard.script = passed ++ poll :: rest) (hn : ∀ p ∈ passed, p.code? = none)
    (hc : poll.code? = some code) (hf : passed.length < fuel) :
    ∃ control, awaitKeyWithin fuel m = some { m with
      keyboard := { m.keyboard with script := rest }
      control := control
      stack := .number (Float.ofNat code) :: m.stack
      counter := m.counter + 1 } := by
  have hP := Requests.closed_empty
  -- Every poll that is passed over costs one unit of fuel and leaves the requests empty.
  induction passed generalizing m fuel with
  | nil =>
    obtain ⟨fuel, rfl⟩ : ∃ n, fuel = n + 1 := ⟨fuel - 1, by simp only [List.length_nil] at hf; omega⟩
    have hpoll : m.keyboard.poll = (poll, { m.keyboard with script := rest }) := by
      rw [List.nil_append] at hs
      simp only [Keyboard.poll, hs]
    rw [awaitKeyWithin_succ]
    simp only [hpoll, hc, polled]
    exact ⟨_, rfl⟩
  | cons p passed ih =>
    obtain ⟨fuel, rfl⟩ : ∃ n, fuel = n + 1 := ⟨fuel - 1, by omega⟩
    obtain ⟨hpass, hpasses⟩ := List.forall_mem_cons.mp hn
    have hpolled : m.polled = { m with
        keyboard := { m.keyboard with script := passed ++ poll :: rest }
        control := m.polled.control } := by
      simp only [polled, Keyboard.poll_snd, hs, List.cons_append, List.drop_one, List.tail_cons]
    have hcode : m.keyboard.poll.1.code? = none := by
      simp only [Keyboard.poll, hs, List.cons_append, hpass]
    have hmeets := hquiet.polled hP
    have hsees : m.polled.control.seesAny.1 = false := by
      have hsync := (hmeets.control.sync hP).pending
      have hsync' := ((hmeets.control.sync hP).sync hP).pending
      simp only [Control.seesAny, Control.seesPause, Control.seesStop, hsync, hsync']
    have hseen : Meets (· = {}) { m.polled with control := m.polled.control.seesAny.2 } :=
      ⟨hmeets.control.seesAny hP, hmeets.keyboard, hmeets.log⟩
    have hshort : passed.length < fuel := by
      simp only [List.length_cons] at hf
      omega
    rw [awaitKeyWithin_succ, hcode]
    dsimp only
    rw [if_neg (by simp [hh, hp]), if_neg (by simp [hsees])]
    rw [hpolled] at hseen ⊢
    exact ih hseen hh hp rfl hpasses hshort

/-- How an undisturbed machine stands to one that is interrupted now and then: both are at the same
point of the computation, except that the second may have begun to wait for a key. -/
structure Follows (a b : Machine) : Prop where
  alike : a.work.Alike b.work
  apart : a.work.Level b.work ∨ a.halted = false ∧ a.work.Lags b.work
  halted : a.halted = b.halted
  quiet : a.Meets (· = {})
  free : a.breakpoints = .empty
  running : a.paused = false
  unstopped : b.Meets (fun r => r.stop = false)

/-- Run control of the second machine makes no difference, as long as it does not halt. -/
theorem Follows.right {a b b' : Machine} (h : Follows a b) (hw : b'.work = b.work)
    (hh : b'.halted = b.halted) (hb : b'.Meets (fun r => r.stop = false)) : Follows a b' where
  alike := by
    rw [hw]
    exact h.alike
  apart := by
    rw [hw]
    exact h.apart
  halted := by rw [hh, h.halted]
  quiet := h.quiet
  free := h.free
  running := h.running
  unstopped := hb

/-- Nor does run control of the first, as long as nobody makes requests. -/
theorem Follows.left {a a' b : Machine} (h : Follows a b) (hw : a'.work = a.work)
    (hh : a'.halted = a.halted) (hquiet : a'.Meets (· = {})) (hfree : a'.breakpoints = .empty)
    (hrunning : a'.paused = false) : Follows a' b where
  alike := by
    rw [hw]
    exact h.alike
  apart := by
    rw [hw, hh]
    exact h.apart
  halted := by rw [hh, h.halted]
  quiet := hquiet
  free := hfree
  running := hrunning
  unstopped := h.unstopped

/-- Only at an instruction that waits for a key can the first machine lag behind. -/
theorem Follows.level {a b : Machine} (h : Follows a b)
    (hn : ∀ index i, b.current = .ok (index, i) → i.opcode ≠ .getchar) :
    a.work.Level b.work := by
  rcases h.apart with hlevel | ⟨_, hlags⟩
  · exact hlevel
  · obtain ⟨hpos, i, hi, hop⟩ := hlags.waits
    have hc : a.current = .ok (a.counter.toNat, i) := current_of_instruction hpos hi
    rw [current_congr h.alike] at hc
    exact absurd hop (hn _ i hc)

/-- What two steps with the same result have to show. -/
theorem Follows.of_steps {a b a' b' : Machine} {r : Except Fault Unit} (h : Follows a b)
    (ha : a.step = some (r, a')) (hb : b.step = some (r, b')) (halike : a'.work.Alike b'.work)
    (hlevel : a'.work.Level b'.work) (hhalted : a'.halted = b'.halted) : Follows a' b' := by
  obtain ⟨_, _, hpaused, hbreak, _⟩ := step_keeps ha
  exact {
    alike := halike
    apart := .inl hlevel
    halted := hhalted
    quiet := h.quiet.step Requests.closed_empty ha
    free := hbreak.trans h.free
    running := hpaused.trans h.running
    unstopped := h.unstopped.step Requests.closed_stop_eq_false hb }

/-- An instruction other than `getchar` is executed by both machines alike. -/
theorem Follows.done {a b b' : Machine} {index : Nat} {i : Instruction} {effect : Effect}
    {stack : List Value} (h : Follows a b) (hh : b.halted = false)
    (hc : b.current = .ok (index, i)) (hp : plan b index i b.stack = .ok (effect, stack))
    (hm : (b.begun index i stack).perform effect = some b') (he : effect ≠ .awaitKey) :
    ∃ a', a.step = some (.ok (), a') ∧ Follows a' b'.measured := by
  have hlevel : a.work.Level b.work := by
    apply h.level
    intro _ _ hc' hop
    cases hc.symm.trans hc'
    rw [plan_getchar b index hop] at hp
    cases hp
    exact he rfl
  obtain ⟨extra, htrace⟩ := hlevel.trace
  have hbegun : (a.begun index i stack).work.Alike (b.begun index i stack).work :=
    { h.alike with stack := rfl }
  obtain ⟨a', ha, halike, hhalted, hka, hkb⟩ := perform_alike hbegun h.halted he hm
  have hstep : a.step = some (.ok (), a'.measured) := by
    rw [← current_congr h.alike] at hc
    rw [← plan_alike h.alike] at hp
    exact step_eq_some_iff.mpr (.done (h.halted.trans hh) hc hp ha)
  refine ⟨a'.measured, hstep, h.of_steps hstep (step_eq_some_iff.mpr (.done hh hc hp hm))
    { halike with } ⟨?_, extra, ?_⟩ hhalted⟩
  · change a'.keyboard.keys = b'.keyboard.keys
    rw [hka, hkb]
    exact hlevel.keys
  · have hta : a'.trace = a.trace.record index i.opcode := (perform_keeps ha).2.2.2.2.1
    have htb : b'.trace = b.trace.record index i.opcode := (perform_keeps hm).2.2.2.2.1
    have hstack : a'.stack = b'.stack := halike.stack
    have hframes : a'.frames = b'.frames := halike.frames
    have hreturns : a'.returns = b'.returns := halike.returns
    change Trace.Extends extra
      (a'.trace.recordDepths a'.stack.length a'.frames.length a'.returns.length)
      (b'.trace.recordDepths b'.stack.length b'.frames.length b'.returns.length)
    rw [hta, htb, hstack, hframes, hreturns]
    exact (htrace.record index i.opcode).recordDepths _ _ _

/-- The polls that the second machine is ahead by bring no usable key. -/
theorem Follows.keys_ahead {a b : Machine} (h : Follows a b) :
    ∃ used, a.keyboard.keys = used ++ b.keyboard.keys ∧
      ∀ key ∈ used, key.bind Key.code? = none := by
  rcases h.apart with hlevel | ⟨_, hlags⟩
  · exact ⟨[], hlevel.keys, nofun⟩
  · exact hlags.keys

/-- All else that it is ahead by are visits to the instruction at the counter. -/
theorem Follows.trace_ahead {a b : Machine} (h : Follows a b) :
    ∃ base extra, Trace.Extends extra base b.trace ∧
      (base = a.trace ∨ base = a.trace.visit a.counter.toNat a.stack.length a.frames.length
        a.returns.length) := by
  rcases h.apart with hlevel | ⟨_, hlags⟩
  · obtain ⟨extra, htrace⟩ := hlevel.trace
    exact ⟨a.trace, extra, htrace, .inl rfl⟩
  · obtain ⟨extra, htrace⟩ := hlags.trace
    exact ⟨_, extra, htrace, .inr rfl⟩

/-- The key that the second machine gets is the next one for the first as well. -/
theorem Follows.poll_of_poll {a b : Machine} {passed rest : List Poll} {poll : Poll} {code : Nat}
    (h : Follows a b) (hs : b.keyboard.script = passed ++ poll :: rest)
    (hn : ∀ p ∈ passed, p.code? = none) (hcode : poll.code? = some code) :
    ∃ passed' poll' rest', a.keyboard.script = passed' ++ poll' :: rest' ∧
      (∀ p ∈ passed', p.code? = none) ∧ poll'.code? = some code ∧
      rest'.map (·.key) = rest.map (·.key) := by
  obtain ⟨used, hkeys, hused⟩ := h.keys_ahead
  have hbkeys : b.keyboard.keys = passed.map (·.key) ++ poll.key :: rest.map (·.key) := by
    rw [Keyboard.keys, hs, List.map_append, List.map_cons]
  rw [hbkeys, ← List.append_assoc] at hkeys
  obtain ⟨passed', poll', rest', hs', hpassed', hpoll', hrest'⟩ := Keyboard.script_of_keys hkeys
  refine ⟨passed', poll', rest', hs', ?_, ?_, hrest'⟩
  · intro p hp
    have hkey : p.key ∈ used ++ passed.map (·.key) := hpassed' ▸ List.mem_map_of_mem hp
    rcases List.mem_append.mp hkey with hkey | hkey
    · exact hused _ hkey
    · obtain ⟨q, hq, hqp⟩ := List.mem_map.mp hkey
      rw [Poll.code?, ← hqp]
      exact hn q hq
  · rw [Poll.code?, hpoll']
    exact hcode

/-- When the second machine gets its key, the first one gets the same, and both are level again. -/
theorem Follows.key {a b b' : Machine} {i : Instruction} {passed rest : List Poll} {poll : Poll}
    {code : Nat} {control : Control} (h : Follows a b) (hh : b.halted = false)
    (hc : b.current = .ok (b.counter.toNat, i)) (hop : i.opcode = .getchar)
    (hs : b.keyboard.script = passed ++ poll :: rest) (hn : ∀ p ∈ passed, p.code? = none)
    (hcode : poll.code? = some code)
    (hb : b' = { b.begun b.counter.toNat i b.stack with
      keyboard := { b.keyboard with script := rest }
      control := control
      stack := .number (Float.ofNat code) :: b.stack
      counter := b.counter + 1 })
    (hstep : b.step = some (.ok (), b'.measured)) :
    ∃ a', a.step = some (.ok (), a') ∧ Follows a' b'.measured := by
  obtain ⟨passed', poll', rest', hs', hn', hcode', hrest'⟩ := h.poll_of_poll hs hn hcode
  obtain ⟨base, extra, htrace, hbase⟩ := h.trace_ahead
  have hcounter : a.counter = b.counter := h.alike.counter
  have hstack : a.stack = b.stack := h.alike.stack
  have hframes : a.frames = b.frames := h.alike.frames
  have hreturns : a.returns = b.returns := h.alike.returns
  have hahalted : a.halted = false := h.halted.trans hh
  have hquiet : (a.begun b.counter.toNat i a.stack).Meets (· = {}) :=
    ⟨h.quiet.control, h.quiet.keyboard, h.quiet.log⟩
  -- The wait of the first machine is long enough: its bound counts the whole script.
  have hfuel : passed'.length < a.keyboard.script.length + a.control.arriving.length + 1 := by
    rw [hs', List.length_append]
    omega
  obtain ⟨control', hwait⟩ :=
    awaitKeyWithin_of_key hquiet hahalted h.running hs' hn' hcode' hfuel
  have hastep := step_eq_some_iff.mpr (.done hahalted ((current_congr h.alike).trans hc)
    (plan_getchar a _ hop a.stack) hwait)
  subst hb
  refine ⟨_, hastep, h.of_steps hastep hstep ?_ ⟨hrest', extra, ?_⟩ h.halted⟩
  · exact { h.alike with
      stack := congrArg (Value.number (Float.ofNat code) :: ·) hstack
      counter := congrArg (· + 1) hcounter }
  · have hdone := (htrace.record b.counter.toNat .getchar).recordDepths (b.stack.length + 1)
      b.frames.length b.returns.length
    rw [← hop] at hdone
    rcases hbase with rfl | rfl
    · simpa only [measured, begun, work, hstack, hframes, hreturns, List.length_cons] using hdone
    · -- The visits before recorded no depth that is not recorded now.
      rw [hcounter, hstack, hframes, hreturns, Trace.record_visit _ _ _ (by omega)] at hdone
      simpa only [measured, begun, work, hstack, hframes, hreturns, List.length_cons] using hdone

/-- When the second machine is interrupted while it waits, the first one has not begun to wait. -/
theorem Follows.interrupted {a b b' : Machine} {i : Instruction} {passed rest : List Poll}
    {control : Control} (h : Follows a b) (hh : b.halted = false)
    (hc : b.current = .ok (b.counter.toNat, i)) (hop : i.opcode = .getchar)
    (hs : b.keyboard.script = passed ++ rest) (hn : ∀ p ∈ passed, p.code? = none)
    (hb : b' = { b.begun b.counter.toNat i b.stack with
      keyboard := { b.keyboard with script := rest }
      control := control })
    (hstep : b.step = some (.ok (), b'.measured)) : Follows a b'.measured := by
  obtain ⟨used, hkeys, hused⟩ := h.keys_ahead
  obtain ⟨base, extra, htrace, hbase⟩ := h.trace_ahead
  have hcounter : a.counter = b.counter := h.alike.counter
  have hstack : a.stack = b.stack := h.alike.stack
  have hframes : a.frames = b.frames := h.alike.frames
  have hreturns : a.returns = b.returns := h.alike.returns
  obtain ⟨_, hpos, hi⟩ := current_eq_ok ((current_congr h.alike).trans hc)
  have hvisit : base.visit a.counter.toNat a.stack.length a.frames.length a.returns.length =
      a.trace.visit a.counter.toNat a.stack.length a.frames.length a.returns.length := by
    rcases hbase with rfl | rfl
    · rfl
    · rw [Trace.visit_visit]
  have hunstopped := h.unstopped.step Requests.closed_stop_eq_false hstep
  subst hb
  refine ⟨{ h.alike with }, .inr ⟨h.halted.trans hh, ⟨hpos, i, hi, hop⟩, ?_, extra + 1, ?_⟩,
    h.halted, h.quiet, h.free, h.running, hunstopped⟩
  · refine ⟨used ++ passed.map (·.key), ?_, ?_⟩
    · change a.keyboard.keys = _ ++ rest.map (·.key)
      rw [hkeys, Keyboard.keys, hs, List.map_append, List.append_assoc]
    · intro key hkey
      rcases List.mem_append.mp hkey with hkey | hkey
      · exact hused key hkey
      · obtain ⟨p, hp, rfl⟩ := List.mem_map.mp hkey
        exact hn p hp
  · have hdone := htrace.visit a.counter.toNat a.stack.length a.frames.length a.returns.length
    rw [hvisit] at hdone
    simpa only [measured, begun, work, hop, hcounter, hstack, hframes, hreturns] using hdone

/-- A step of the second machine is either an attempt to read a key that was interrupted, or the first
machine makes a step with the same result. -/
theorem Follows.step {a b b' : Machine} {r : Except Fault Unit} (h : Follows a b)
    (hh : b.halted = false) (hs : b.step = some (r, b')) :
    r = .ok () ∧ Follows a b' ∨ ∃ a', a.step = some (r, a') ∧ Follows a' b' := by
  have hahalted : a.halted = false := h.halted.trans hh
  -- The first machine lags only where it waits for a key, so elsewhere both do the same.
  cases step_eq_some_iff.mp hs with
  | halted hh' =>
    rw [hh] at hh'
    cases hh'
  | misplaced _ hc =>
    have hlevel : a.work.Level b.work := by
      apply h.level
      intro index i hc'
      rw [hc] at hc'
      cases hc'
    have ha := step_eq_some_iff.mpr (.misplaced hahalted ((current_congr h.alike).trans hc))
    exact .inr ⟨_, ha, h.of_steps ha hs { h.alike with } ⟨hlevel.keys, hlevel.trace⟩ rfl⟩
  | @failed index i _ stack _ hc hp =>
    have hlevel : a.work.Level b.work := by
      apply h.level
      intro _ _ hc' hop
      cases hc.symm.trans hc'
      rw [plan_getchar b index hop] at hp
      cases hp
    obtain ⟨extra, htrace⟩ := hlevel.trace
    have ha := step_eq_some_iff.mpr (.failed hahalted ((current_congr h.alike).trans hc)
      ((plan_alike h.alike index i).trans hp))
    exact .inr ⟨_, ha, h.of_steps ha hs { h.alike with stack := rfl }
      ⟨hlevel.keys, extra, htrace.record index i.opcode⟩ rfl⟩
  | @done index i effect stack b' _ hc hp hm =>
    by_cases he : effect = .awaitKey
    · -- The wait of the second machine may have been interrupted, now or before.
      subst he
      have hop : i.opcode = .getchar := plan_suits b index i b.stack _ stack hp
      rw [plan_getchar b index hop] at hp
      cases hp
      obtain ⟨rfl, _, _⟩ := current_eq_ok hc
      cases awaited_of_awaitKeyWithin hm with
      | key hk hn hcode => exact .inr (h.key hh hc hop hk hn hcode rfl hs)
      | interrupted hk hn => exact .inl ⟨rfl, h.interrupted hh hc hop hk hn rfl hs⟩
    · exact .inr (h.done hh hc hp hm he)

/-- Requests that nobody makes neither halt nor pause. -/
theorem applyRequests_of_quiet {m : Machine} (h : m.Meets (· = {})) :
    m.applyRequests.halted = m.halted ∧ m.applyRequests.paused = m.paused := by
  have hP := Requests.closed_empty
  refine ⟨?_, ?_⟩
  · rw [applyRequests_halted, (h.control.sync hP).pending, Bool.or_false]
  · rw [applyRequests_paused, ((h.control.sync hP).sync hP).pending, Bool.false_and, Bool.or_false]

theorem checkBreakpoint_of_free {m : Machine} (h : m.breakpoints = .empty) :
    m.checkBreakpoint = m := by
  rcases checkBreakpoint_cases m with hc | ⟨hb, _⟩
  · exact hc
  · rw [h] at hb
    cases hb

theorem Follows.looked {a b : Machine} (h : Follows a b) : Follows a.applyRequests b := by
  obtain ⟨hh, hp⟩ := applyRequests_of_quiet h.quiet
  exact h.left (work_applyRequests a) hh (h.quiet.applyRequests Requests.closed_empty)
    ((breakpoints_applyRequests a).trans h.free) (hp.trans h.running)

/-- Requests to pause do not halt the second machine. -/
theorem Follows.applyRequests {a b : Machine} (h : Follows a b) : Follows a b.applyRequests := by
  have hP := Requests.closed_stop_eq_false
  refine h.right (work_applyRequests b) ?_ (h.unstopped.applyRequests hP)
  rw [applyRequests_halted, (h.unstopped.control.sync hP).pending, Bool.or_false]

theorem Follows.checkBreakpoint {a b : Machine} (h : Follows a b) : Follows a b.checkBreakpoint := by
  refine h.right (work_checkBreakpoint b) ?_ h.unstopped.checkBreakpoint
  rcases checkBreakpoint_cases b with hc | ⟨_, _, _, hc⟩
  · rw [hc]
  · rw [hc]
    rfl

theorem Follows.setPaused {a b : Machine} (h : Follows a b) (p : Bool) : Follows a (b.setPaused p) :=
  h.right rfl rfl (h.unstopped.setPaused p)

/-- An instruction that the second machine executes takes the first one no turn or one turn. -/
theorem Follows.moves {a b b' : Machine} (h : Follows a b) (hh : b.halted = false)
    (hs : b.step = some (.ok (), b')) : ∃ a', Turns none a a' ∧ Follows a' b' := by
  have hlook := h.looked
  rcases hlook.step hh hs with ⟨_, hf⟩ | ⟨a', ha, hf⟩
  · -- An interrupted wait: the first machine stays where it is.
    obtain ⟨hhalted, _⟩ := applyRequests_of_quiet h.quiet
    exact ⟨a, .refl, hf.left (work_applyRequests a).symm hhalted.symm h.quiet h.free h.running⟩
  · have hturn : Turn none a a'.checkBreakpoint :=
      ⟨hlook.halted.trans hh, hlook.running, ha, rfl⟩
    rw [checkBreakpoint_of_free hf.free] at hturn
    exact ⟨a', .single hturn, hf⟩

/-- An instruction that fails on the second machine ends the run of the first. -/
theorem Follows.fails {a b b' : Machine} {e : Fault} (h : Follows a b) (hh : b.halted = false)
    (hs : b.step = some (.error e, b')) : ∃ a', Ends none a (.error e, a') ∧ Follows a' b' := by
  rcases h.looked.step hh hs with ⟨he, _⟩ | ⟨a', ha, hf⟩
  · cases he
  · exact ⟨a', .failed (h.looked.halted.trans hh) h.looked.running ha, hf⟩

end Machine

end PixelMachine
