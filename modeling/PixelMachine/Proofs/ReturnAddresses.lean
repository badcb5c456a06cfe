import PixelMachine.Proofs.Reachable

/-! Return addresses are call sites: whatever is done to a machine, each address on its return stack
directly follows a `call` of the loaded program. -/
namespace PixelMachine

/-- An address that directly follows a `call`. -/
def Program.FollowsCall (p : Program) (address : Nat) : Prop :=
  1 ≤ address ∧ address ≤ p.size ∧
    ∃ i, p.instruction? (address - 1) = some i ∧ i.opcode = .call

theorem Program.followsCall_succ {p : Program} {index : Nat} {i : Instruction}
    (hi : p.instruction? index = some i) (hop : i.opcode = .call) : p.FollowsCall (index + 1) := by
  have hlt : index < p.size := (Array.getElem?_eq_some_iff.mp hi).1
  exact ⟨Nat.le_add_left 1 index, hlt, i, hi, hop⟩

/-- All return addresses follow calls of the program. -/
def Work.ReturnsToCalls (w : Work) : Prop := ∀ address ∈ w.returns, w.program.FollowsCall address

namespace Machine

/-- A step that does not succeed leaves the return stack as it is. -/
theorem returns_of_step_error {m m' : Machine} {e : Fault} (h : m.step = some (.error e, m')) :
    m'.returns = m.returns := by
  cases step_eq_some_iff.mp h with
  | halted | misplaced | failed => rfl

theorem returnsToCalls_step {m m' : Machine} {r : Except Fault Unit} (hm : m.work.ReturnsToCalls)
    (hs : m.step = some (r, m')) : m'.work.ReturnsToCalls := by
  intro address haddress
  obtain ⟨hprogram, _⟩ := step_keeps hs
  change address ∈ m'.returns at haddress
  change m'.program.FollowsCall address
  rw [hprogram]
  rcases r with e | _
  · rw [returns_of_step_error hs] at haddress
    exact hm address haddress
  · obtain ⟨index, i, hc, ⟨_, _, hr⟩ | ⟨hop, hr⟩ | ⟨_, hr, _⟩⟩ := step_returns hs
    · rw [hr] at haddress
      exact hm address haddress
    · -- Only a call pushes, and what it pushes is the address behind it.
      rw [hr] at haddress
      rcases List.mem_cons.mp haddress with rfl | hbefore
      · obtain ⟨rfl, _, hi⟩ := current_eq_ok hc
        exact Program.followsCall_succ hi hop
      · exact hm address hbefore
    · apply hm address
      change address ∈ m.returns
      rw [hr]
      exact List.mem_cons_of_mem _ haddress

/-- Another program is taken only together with an empty return stack. -/
theorem kept_returnsToCalls : Kept Work.ReturnsToCalls where
  build := fun _ _ => nofun
  load := fun _ _ _ => nofun
  reset := fun _ _ => nofun
  resize := fun _ _ h => h
  step := fun _ _ _ h hs => returnsToCalls_step h hs

/-- In every state that a machine comes to, all return addresses follow calls of the loaded program,
so a `ret` that succeeds goes to such an address. -/
theorem return_addresses_follow_calls {m : Machine} (h : Reachable m) :
    (∀ address ∈ m.returns, m.program.FollowsCall address) ∧
      ∀ m', m.IsAt .ret → m.step = some (.ok (), m') →
        1 ≤ m'.counter ∧ m'.counter ≤ m'.program.size ∧
          m'.program.FollowsCall m'.counter.toNat := by
  have hreturns : ∀ address ∈ m.returns, m.program.FollowsCall address := h.of_kept kept_returnsToCalls
  refine ⟨hreturns, ?_⟩
  intro m' hret hs
  obtain ⟨hprogram, _⟩ := step_keeps hs
  obtain ⟨index, i, hc, hcases⟩ := step_returns hs
  have hop : i.opcode = .ret := (isAt_iff hc).mp hret
  rcases hcases with ⟨_, hnot, _⟩ | ⟨hcall, _⟩ | ⟨_, hr, hpos⟩
  · exact absurd hop hnot
  · rw [hop] at hcall
    cases hcall
  · have htarget : m.program.FollowsCall m'.counter.toNat := by
      apply hreturns
      rw [hr]
      exact List.mem_cons_self
    have hone : 1 ≤ m'.counter.toNat := htarget.1
    have hsize : m'.counter.toNat ≤ m.program.size := htarget.2.1
    rw [hprogram]
    exact ⟨by omega, by omega, htarget⟩

/-- A program that calls a function, and halts when that has returned. -/
def callingOnce : Program :=
  ⟨#[⟨.push, some (.number 0.0)⟩, ⟨.push, some (.number 4.0)⟩, ⟨.call, none⟩, ⟨.halt, none⟩,
    ⟨.ret, none⟩], .empty⟩

theorem ret_follows_call :
    ∃ m m', Reachable m ∧ m.IsAt .ret ∧ m.returns = [3] ∧ m.step = some (.ok (), m') ∧
      m'.counter = 3 ∧ m'.program.FollowsCall 3 := by
  have hbuilt : Reachable (new .headless) := .new _
  have hloaded : Reachable ((new .headless).load callingOnce) :=
    @Reachable.command _ _ 0 (.load callingOnce) _ hbuilt rfl
  have hwatched : Reachable (((new .headless).load callingOnce).addBreakpoint 5).2 :=
    @Reachable.command _ _ 0 (.addBreakpoint 5) _ hloaded rfl
  -- The breakpoint pauses the run within the function.
  have hrun : ∃ m m', (((new .headless).load callingOnce).addBreakpoint 5).2.run 4 =
      some (.ok (), m) ∧ m.IsAt .ret ∧ m.returns = [3] ∧ m.step = some (.ok (), m') ∧ m'.counter = 3 :=
    ⟨_, _, rfl, ⟨4, _, rfl, rfl⟩, rfl, rfl, rfl⟩
  obtain ⟨m, m', hm, hret, hreturns, hstep, hcounter⟩ := hrun
  have hreach : Reachable m := @Reachable.command _ _ 4 .run _ hwatched hm
  obtain ⟨_, _, htarget⟩ := (return_addresses_follow_calls hreach).2 m' hret hstep
  rw [hcounter] at htarget
  exact ⟨m, m', hreach, hret, hreturns, hstep, hcounter, htarget⟩

end Machine

end PixelMachine
