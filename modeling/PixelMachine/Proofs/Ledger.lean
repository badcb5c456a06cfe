import Mathlib.Algebra.GroupWithZero.Nat
import PixelMachine.Proofs.Failures
import PixelMachine.Proofs.History
import PixelMachine.Proofs.Traces

/-! The statistics of a run are an exact ledger of it: they list the instructions that were attempted
since the last reset, and they bound the stacks that these left. -/
namespace PixelMachine

namespace Table

variable {κ ν : Type} [Ord κ]

/-- The keys in order. -/
def keys (t : Table κ ν) : List κ := t.entries.map (·.1)

/-- The sum of all values. -/
def total (t : Table κ Nat) : Nat := (t.entries.map (·.2)).sum

/-- A key below all others is not found. -/
theorem find?_of_below {k : κ} {es : List (κ × ν)} (h : ∀ e ∈ es, compare k e.1 = .lt) :
    es.find? (fun e => compare k e.1 == .eq) = none := by
  apply List.find?_eq_none.mpr
  intro e he
  simp [h e he]

variable [Std.TransOrd κ]

/-- Each entry is found by its key. -/
theorem find?_of_mem_entries [Std.LawfulEqOrd κ] {es : List (κ × ν)}
    (h : es.Pairwise (fun a b => compare a.1 b.1 = .lt)) {e : κ × ν} (he : e ∈ es) :
    es.find? (fun x => compare e.1 x.1 == .eq) = some e := by
  induction es with
  | nil => cases he
  | cons x es ih =>
    obtain ⟨hhead, hrest⟩ := List.pairwise_cons.mp h
    rcases List.mem_cons.mp he with rfl | he
    · simp
    · -- The entries before it have smaller keys.
      have hgt : compare e.1 x.1 = .gt := Std.OrientedCmp.gt_of_lt (hhead e he)
      rw [List.find?_cons, hgt]
      exact ih hrest he

theorem find?_eq_some_iff [Std.LawfulEqOrd κ] (t : Table κ ν) {k : κ} {v : ν} :
    t.find? k = some v ↔ (k, v) ∈ t.entries := by
  unfold find?
  constructor
  · intro h
    obtain ⟨e, he, rfl⟩ := Option.map_eq_some_iff.mp h
    have hkey : k = e.1 := Std.LawfulEqOrd.eq_of_compare (by simpa using List.find?_some he)
    rw [hkey]
    exact List.mem_of_find?_eq_some he
  · intro h
    rw [find?_of_mem_entries t.ascending h]
    rfl

theorem mem_keys_iff [Std.LawfulEqOrd κ] (t : Table κ ν) {k : κ} :
    k ∈ t.keys ↔ ∃ v, t.find? k = some v := by
  unfold keys
  simp only [find?_eq_some_iff, List.mem_map, Prod.exists, exists_and_right, exists_eq_right]

/-- A value that is set counts in place of the one before. -/
theorem sum_insertEntry (k : κ) (v : Nat) {es : List (κ × Nat)}
    (h : es.Pairwise (fun a b => compare a.1 b.1 = .lt)) :
    ((insertEntry k v es).map (·.2)).sum +
        ((es.find? fun e => compare k e.1 == .eq).map (·.2)).getD 0 = (es.map (·.2)).sum + v := by
  induction es with
  | nil => simp [insertEntry]
  | cons e es ih =>
    obtain ⟨hhead, hrest⟩ := List.pairwise_cons.mp h
    simp only [insertEntry]
    split
    · next hlt =>
      -- The key is new, since all keys of the table are above it.
      have hbelow : ∀ x ∈ e :: es, compare k x.1 = .lt := by
        intro x hx
        rcases List.mem_cons.mp hx with rfl | hx
        · exact hlt
        · exact Std.TransCmp.lt_trans hlt (hhead x hx)
      rw [find?_of_below hbelow]
      simp only [List.map_cons, List.sum_cons, Option.map_none, Option.getD_none]
      omega
    · next heq =>
      simp only [List.find?_cons, heq, List.map_cons, List.sum_cons, Option.map_some, Option.getD_some,
        beq_self_eq_true]
      omega
    · next hgt =>
      have hnot : (compare k e.1 == .eq) = false := by simp [hgt]
      have hlater := ih hrest
      simp only [List.find?_cons, hnot, List.map_cons, List.sum_cons]
      omega

/-- Counting one more adds one to the sum. -/
theorem total_increment (t : Table κ Nat) (k : κ) :
    (t.insert k ((t.find? k).getD 0 + 1)).total = t.total + 1 := by
  have hsum : (t.insert k ((t.find? k).getD 0 + 1)).total + (t.find? k).getD 0 =
      t.total + ((t.find? k).getD 0 + 1) := sum_insertEntry k _ t.ascending
  omega

end Table

/-- An instruction that a step came to, and whether it was completed. -/
structure Attempt where
  index : Nat
  opcode : Opcode
  completed : Bool
  deriving DecidableEq

/-- The instruction that a step comes to. A halted machine comes to none, and neither does one whose
counter is outside the program. -/
def Deed.attempt? : Deed → Option Attempt
  | .reset => none
  | .step m o =>
    if m.halted then none
    else
      match m.current with
      | .ok (index, i) => some ⟨index, i.opcode, o.any (·.1.isOk)⟩
      | .error _ => none

/-- The instructions attempted since the last reset, in order. -/
def attempts (ds : List Deed) : List Attempt :=
  ds.foldl (fun as d =>
    match d with
    | .reset => []
    | .step m o => as ++ (Deed.step m o).attempt?.toList) []

theorem attempts_reset (ds : List Deed) : attempts (ds ++ [.reset]) = [] := by
  simp [attempts]

theorem attempts_step (ds : List Deed) (m : Machine) (o : Option Machine.Outcome) :
    attempts (ds ++ [.step m o]) = attempts ds ++ (Deed.step m o).attempt?.toList := by
  simp [attempts]

/-- How often an opcode was attempted. -/
def Attempt.count (as : List Attempt) (op : Opcode) : Nat := as.countP (·.opcode = op)

theorem Attempt.count_append (as : List Attempt) (a : Attempt) (op : Opcode) :
    count (as ++ [a]) op = count as op + if a.opcode = op then 1 else 0 := by
  simp [count, List.countP_append, List.countP_cons]

namespace Trace

/-- How often an opcode was recorded. -/
def count (t : Trace) (op : Opcode) : Nat := (t.opcodeCounts.find? op).getD 0

/-- The statistics record these attempts on a program, and nothing else. -/
structure Lists (t : Trace) (p : Program) (as : List Attempt) : Prop where
  instructions : t.instructions = as.length
  total : t.opcodeCounts.total = as.length
  counts : ∀ op, t.count op = Attempt.count as op
  positive : ∀ op n, t.opcodeCounts.find? op = some n → 0 < n
  coverage : ∀ index, index ∈ t.coverage.members ↔ ∃ a ∈ as, a.index = index
  placed : ∀ a ∈ as, ∃ i, p.instruction? a.index = some i ∧ i.opcode = a.opcode

theorem lists_empty (p : Program) : empty.Lists p [] where
  instructions := rfl
  total := rfl
  counts := fun _ => rfl
  positive := nofun
  coverage := by simp [empty, IndexSet.empty]
  placed := nofun

variable {t : Trace} {p : Program} {as : List Attempt}

/-- Each instruction that starts is recorded once. -/
theorem Lists.record (h : t.Lists p as) {index : Nat} {i : Instruction} (completed : Bool)
    (hi : p.instruction? index = some i) :
    (t.record index i.opcode).Lists p (as ++ [⟨index, i.opcode, completed⟩]) where
  instructions := by
    rw [List.length_append, ← h.instructions]
    rfl
  total := by
    rw [List.length_append, ← h.total]
    exact Table.total_increment t.opcodeCounts i.opcode
  counts := by
    intro op
    rw [Attempt.count_append, ← h.counts op]
    by_cases hop : op = i.opcode
    · subst hop
      simp [count, Trace.record, Table.find?_insert_self]
    · simp [count, Trace.record, Table.find?_insert_of_ne _ _ hop, Ne.symm hop]
  positive := by
    intro op n hn
    by_cases hop : op = i.opcode
    · subst hop
      simp only [Trace.record, Table.find?_insert_self, Option.some.injEq] at hn
      omega
    · simp only [Trace.record, Table.find?_insert_of_ne _ _ hop] at hn
      exact h.positive op n hn
  coverage := by
    intro n
    have hinsert : n ∈ (t.coverage.insert index).members ↔ n = index ∨ n ∈ t.coverage.members :=
      IndexSet.mem_insertMember
    change n ∈ (t.coverage.insert index).members ↔ _
    rw [hinsert, h.coverage n]
    constructor
    · rintro (rfl | ⟨a, ha, rfl⟩)
      · exact ⟨_, List.mem_append_right _ (List.mem_singleton_self _), rfl⟩
      · exact ⟨a, List.mem_append_left _ ha, rfl⟩
    · rintro ⟨a, ha, rfl⟩
      rcases List.mem_append.mp ha with ha | ha
      · exact .inr ⟨a, ha, rfl⟩
      · rw [List.mem_singleton.mp ha]
        exact .inl rfl
  placed := by
    intro a ha
    rcases List.mem_append.mp ha with ha | ha
    · exact h.placed a ha
    · rw [List.mem_singleton.mp ha]
      exact ⟨i, hi, rfl⟩

/-- Depths are recorded apart from the attempts. -/
theorem Lists.recordDepths (h : t.Lists p as) (workStack frames calls : Nat) :
    (t.recordDepths workStack frames calls).Lists p as :=
  ⟨h.instructions, h.total, h.counts, h.positive, h.coverage, h.placed⟩

/-- An opcode has a count exactly if an instruction with it was covered. -/
theorem Lists.mem_keys_iff (h : t.Lists p as) (op : Opcode) :
    op ∈ t.opcodeCounts.keys ↔
      ∃ index ∈ t.coverage.members, ∃ i, p.instruction? index = some i ∧ i.opcode = op := by
  rw [Table.mem_keys_iff]
  have hcount : (∃ a ∈ as, a.opcode = op) ↔ 0 < t.count op := by
    rw [h.counts op, Attempt.count, List.countP_pos_iff]
    simp
  constructor
  · rintro ⟨n, hn⟩
    obtain ⟨a, ha, rfl⟩ := hcount.mpr (by rw [count, hn]; exact h.positive op n hn)
    exact ⟨a.index, (h.coverage _).mpr ⟨a, ha, rfl⟩, h.placed a ha⟩
  · rintro ⟨index, hindex, i, hi, rfl⟩
    obtain ⟨a, ha, rfl⟩ := (h.coverage index).mp hindex
    obtain ⟨j, hj, hop⟩ := h.placed a ha
    cases hi.symm.trans hj
    have hpos := hcount.mp ⟨a, ha, hop.symm⟩
    rcases hf : t.opcodeCounts.find? i.opcode with _ | n
    · simp [count, hf] at hpos
    · exact ⟨n, rfl⟩

theorem Lists.covered_lt (h : t.Lists p as) {index : Nat} (hindex : index ∈ t.coverage.members) :
    index < p.size := by
  obtain ⟨a, ha, rfl⟩ := (h.coverage index).mp hindex
  obtain ⟨i, hi, _⟩ := h.placed a ha
  exact (Array.getElem?_eq_some_iff.mp hi).1

end Trace

/-- The statistics list the attempts and bound the stacks; only the last attempt may have failed, and
while none has, the return stack holds a place for each call that has not returned. -/
structure Work.Balanced (w : Work) (as : List Attempt) : Prop where
  lists : w.trace.Lists w.program as
  workStack : w.stack.length ≤ w.trace.maxWorkStack
  callDepth : w.returns.length ≤ w.trace.maxCallDepth
  frameDepth : (∃ a ∈ as, a.completed = true) → w.frames.length ≤ w.trace.maxFrameDepth
  failures : ∀ a ∈ as.dropLast, a.completed = true
  calls : (∀ a ∈ as, a.completed = true) →
    w.returns.length + Attempt.count as .ret = Attempt.count as .call

namespace Machine

theorem balanced_reset (m : Machine) : m.reset.work.Balanced [] :=
  ⟨Trace.lists_empty _, Nat.le_refl 0, Nat.le_refl 0, nofun, nofun, fun _ => rfl⟩

/-- A machine that is not halted has completed all that it attempted. -/
structure InStep (m : Machine) (as : List Attempt) : Prop where
  balanced : m.work.Balanced as
  running : m.halted = false → ∀ a ∈ as, a.completed = true

/-- An instruction that fails is recorded as the last one. -/
theorem InStep.failed {m : Machine} {as : List Attempt} (h : m.InStep as) (hh : m.halted = false)
    {index : Nat} {i : Instruction} {e : Fault} {stack : List Value}
    (hc : m.current = .ok (index, i)) (hp : plan m index i m.stack = .error (e, stack)) :
    ((m.begun index i stack).setHalted true).InStep (as ++ [⟨index, i.opcode, false⟩]) := by
  obtain ⟨rfl, _, hi⟩ := current_eq_ok hc
  obtain ⟨_, taken, _, rfl⟩ := plan_failsWithin m _ i m.stack e stack hp
  have hdone := h.running hh
  have hstack : (m.stack.drop taken).length ≤ m.trace.maxWorkStack := by
    rw [List.length_drop]
    exact Nat.le_trans (Nat.sub_le _ _) h.balanced.workStack
  refine ⟨⟨h.balanced.lists.record false hi, hstack, h.balanced.callDepth, ?_, ?_, ?_⟩, nofun⟩
  · rintro ⟨a, ha, hcompleted⟩
    rcases List.mem_append.mp ha with ha | ha
    · exact h.balanced.frameDepth ⟨a, ha, hcompleted⟩
    · rw [List.mem_singleton.mp ha] at hcompleted
      cases hcompleted
  · rw [List.dropLast_concat]
    exact hdone
  · intro hall
    cases hall _ (List.mem_append_right _ (List.mem_singleton_self _))

/-- An instruction that is completed leaves the return stack with one call more or less if it was a
call or a return. -/
theorem InStep.done {m m' : Machine} {as : List Attempt} (h : m.InStep as) (hh : m.halted = false)
    {index : Nat} {i : Instruction} {effect : Effect} {stack : List Value}
    (hc : m.current = .ok (index, i)) (hp : plan m index i m.stack = .ok (effect, stack))
    (hm : (m.begun index i stack).perform effect = some m') :
    m'.measured.InStep (as ++ [⟨index, i.opcode, true⟩]) := by
  obtain ⟨rfl, _, hi⟩ := current_eq_ok hc
  have hdone := h.running hh
  have hall : ∀ a ∈ as ++ [⟨m.counter.toNat, i.opcode, true⟩], a.completed = true :=
    List.forall_mem_append.mpr ⟨hdone, List.forall_mem_singleton.mpr rfl⟩
  obtain ⟨hprogram, _, _, _, htrace, _⟩ := perform_keeps hm
  have hlists : m'.measured.trace.Lists m'.program (as ++ [⟨m.counter.toNat, i.opcode, true⟩]) := by
    change (m'.trace.recordDepths _ _ _).Lists _ _
    rw [hprogram, htrace]
    exact (h.balanced.lists.record true hi).recordDepths _ _ _
  refine ⟨⟨hlists, Nat.le_max_right _ _, Nat.le_max_right _ _, fun _ => Nat.le_max_right _ _, ?_, ?_⟩,
    fun _ => hall⟩
  · rw [List.dropLast_concat]
    exact hdone
  · intro _
    have hbefore := h.balanced.calls hdone
    have hstep : m.step = some (.ok (), m'.measured) := step_eq_some_iff.mpr (.done hh hc hp hm)
    obtain ⟨_, _, hc', hreturns⟩ := step_returns hstep
    cases hc.symm.trans hc'
    change m.returns.length + _ = _ at hbefore
    change m'.measured.returns.length + _ = _
    rw [Attempt.count_append, Attempt.count_append]
    rcases hreturns with ⟨hcall, hret, hr⟩ | ⟨hop, hr⟩ | ⟨hop, hr, _⟩
    · rw [hr, if_neg hcall, if_neg hret]
      exact hbefore
    · rw [hr, List.length_cons, hop, if_pos rfl, if_neg (by simp)]
      omega
    · have hlength : m.returns.length = m'.measured.returns.length + 1 := by rw [hr, List.length_cons]
      rw [hop, if_pos rfl, if_neg (by simp)]
      omega

/-- A step adds the instruction that it comes to. -/
theorem InStep.step {m : Machine} {as : List Attempt} {o : Outcome} (h : m.InStep as)
    (hs : m.step = some o) : o.2.InStep (as ++ (Deed.step m (some o)).attempt?.toList) := by
  cases step_eq_some_iff.mp hs with
  | halted hh => simpa [Deed.attempt?, hh] using h
  | @misplaced e hh hc =>
    have hnone : (Deed.step m (some (.error e, m.setHalted true))).attempt? = none := by
      simp [Deed.attempt?, hh, hc]
    rw [hnone, Option.toList_none, List.append_nil]
    exact ⟨h.balanced, nofun⟩
  | @failed index i e stack hh hc hp =>
    have hone : (Deed.step m (some (.error e, (m.begun index i stack).setHalted true))).attempt? =
        some ⟨index, i.opcode, false⟩ := by
      simp [Deed.attempt?, hh, hc, Except.isOk, Except.toBool]
    rw [hone]
    exact h.failed hh hc hp
  | @done index i effect stack m' hh hc hp hm =>
    have hone : (Deed.step m (some (.ok (), m'.measured))).attempt? = some ⟨index, i.opcode, true⟩ := by
      simp [Deed.attempt?, hh, hc, Except.isOk, Except.toBool]
    rw [hone]
    exact h.done hh hc hp hm

theorem told_inStep : Told fun m ds => m.InStep (attempts ds) where
  same := by
    intro m m' ds h hw hh
    refine ⟨hw ▸ h.balanced, fun hrunning => h.running ?_⟩
    rcases hm : m.halted with _ | _
    · rfl
    · rw [hh hm] at hrunning
      cases hrunning
  load := by
    intro m ds program _
    rw [attempts_reset]
    exact ⟨balanced_reset _, nofun⟩
  restart := by
    intro m ds _
    rw [attempts_reset]
    exact ⟨balanced_reset m, fun _ => nofun⟩
  resize := by
    intro m ds screen _ h
    obtain ⟨hlists, hwork, hcalls, hframes, hfailures, hbalance⟩ := h.balanced
    exact ⟨⟨hlists, hwork, hcalls, hframes, hfailures, hbalance⟩, h.running⟩
  step := by
    intro m o ds h hs
    rw [attempts_step]
    exact h.step hs

theorem inStep_of_isNew {m : Machine} (h : m.IsNew) : m.InStep [] := by
  have hbuild (d : Devices) (config : Config) : (build d config).InStep [] :=
    ⟨⟨Trace.lists_empty _, Nat.le_refl 0, Nat.le_refl 0, nofun, nofun, fun _ => rfl⟩, nofun⟩
  rcases h with ⟨d, rfl⟩ | ⟨d, config, hm⟩
  · exact hbuild d _
  · rw [eq_build_of_withConfig hm]
    exact hbuild d config

/-- What the statistics of a machine say of what was attempted since the last reset, and of the state
that it left. -/
structure Ledger (m : Machine) (as : List Attempt) : Prop where
  recorded : m.trace.instructions = as.length ∧ ∀ op, m.trace.count op = Attempt.count as op
  instructions : m.trace.instructions = m.trace.opcodeCounts.total
  ascending : m.trace.coverage.members.Pairwise (· < ·)
  covered : ∀ index ∈ m.trace.coverage.members, index < m.program.size
  opcodes : ∀ op, op ∈ m.trace.opcodeCounts.keys ↔
    ∃ index ∈ m.trace.coverage.members, ∃ i, m.program.instruction? index = some i ∧ i.opcode = op
  positive : ∀ e ∈ m.trace.opcodeCounts.entries, 0 < e.2
  workStack : m.stack.length ≤ m.trace.maxWorkStack
  callDepth : m.returns.length ≤ m.trace.maxCallDepth
  frameDepth : (∃ a ∈ as, a.completed = true) → m.frames.length ≤ m.trace.maxFrameDepth
  /-- At most one attempt failed, and it is the last one. -/
  failures : ∀ a ∈ as.dropLast, a.completed = true
  calls : (∀ a ∈ as, a.completed = true) →
    m.returns.length + m.trace.count .ret = m.trace.count .call

theorem InStep.ledger {m : Machine} {as : List Attempt} (h : m.InStep as) : m.Ledger as := by
  obtain ⟨hlists, hwork, hcalls, hframes, hfailures, hbalance⟩ := h.balanced
  refine ⟨⟨hlists.instructions, hlists.counts⟩, hlists.instructions.trans hlists.total.symm,
    m.trace.coverage.ascending, fun _ => hlists.covered_lt, hlists.mem_keys_iff, ?_, hwork, hcalls,
    hframes, hfailures, ?_⟩
  · intro e he
    exact hlists.positive e.1 e.2 ((Table.find?_eq_some_iff _).mpr he)
  · intro hall
    have hret := hlists.counts .ret
    have hcall := hlists.counts .call
    change m.trace.count .ret = _ at hret
    change m.trace.count .call = _ at hcall
    rw [hret, hcall]
    exact hbalance hall

/-- Until a reset nothing is attempted by a machine that was halted, and its statistics stay. -/
theorem told_idle (m : Machine) : Told fun m' ds =>
    .reset ∉ ds → m'.halted = true ∧ attempts ds = [] ∧ m'.trace = m.trace where
  same := by
    intro l l' ds h hw hh hds
    obtain ⟨hhalted, hnone, htrace⟩ := h hds
    exact ⟨hh hhalted, hnone, (congrArg Work.trace hw).trans htrace⟩
  load := by
    intro l ds program _ hds
    exact absurd (List.mem_append_right _ (List.mem_singleton_self _)) hds
  restart := by
    intro l ds _ hds
    exact absurd (List.mem_append_right _ (List.mem_singleton_self _)) hds
  resize := by
    intro l ds screen _ h hds
    exact h hds
  step := by
    intro l o ds h hs hds
    obtain ⟨hhalted, hnone, htrace⟩ := h fun hreset => hds (List.mem_append_left _ hreset)
    have ho : o = (.error .halted, l) := by
      rw [step, if_pos hhalted] at hs
      exact (Option.some.inj hs).symm
    rw [attempts_step, hnone]
    subst ho
    exact ⟨hhalted, by simp [Deed.attempt?, hhalted], htrace⟩

/-- The statistics are an exact ledger of the run. Wherever a new machine is led, they list what was
attempted since the last reset, bound the stacks, and tell how many calls have not returned. A machine
that is halted, or that a step left with a fault, attempts nothing more until it is reset. -/
theorem trace_is_exact_ledger :
    (∀ s m ds, IsNew s → Leads s ds m → m.Ledger (attempts ds)) ∧
      ∀ m m' ds, m.halted = true ∨ (∃ (b : Machine) (e : Fault), b.step = some (.error e, m)) →
        Leads m ds m' → .reset ∉ ds → attempts ds = [] ∧ m'.trace = m.trace := by
  refine ⟨?_, ?_⟩
  · intro s m ds hs h
    exact (h.told told_inStep (inStep_of_isNew hs)).ledger
  · intro m m' ds hm h hds
    have hhalted : m.halted = true := by
      rcases hm with hh | ⟨b, e, hb⟩
      · exact hh
      · exact halted_of_step_error hb
    exact (h.told (told_idle m) (fun _ => ⟨hhalted, rfl, rfl⟩) hds).2

/-- A program that calls a function and then returns once too often. -/
def returningTwice : Program :=
  ⟨#[⟨.push, some (.number 0.0)⟩, ⟨.push, some (.number 4.0)⟩, ⟨.call, none⟩, ⟨.ret, none⟩,
    ⟨.ret, none⟩], .empty⟩

/-- The return that fails is the last in the ledger, and a step that is tried after it adds nothing. -/
theorem failed_return_in_ledger :
    ∃ m m' ds ds', Leads (new .headless) ds m ∧
      attempts ds = [⟨0, .push, true⟩, ⟨1, .push, true⟩, ⟨2, .call, true⟩, ⟨4, .ret, true⟩,
        ⟨3, .ret, false⟩] ∧
      m.Ledger (attempts ds) ∧ Leads m ds' m' ∧ ds' = [.step m' (some (.error .halted, m'))] ∧
      attempts ds' = [] ∧ m'.trace = m.trace := by
  obtain ⟨hledger, hidle⟩ := trace_is_exact_ledger
  have hrun : ∃ m, ((new .headless).load returningTwice).run 6 = some (.error .emptyReturnStack, m) ∧
      attempts (((new .headless).load returningTwice).deeds 6 .run) = [⟨0, .push, true⟩,
        ⟨1, .push, true⟩, ⟨2, .call, true⟩, ⟨4, .ret, true⟩, ⟨3, .ret, false⟩] ∧
      m.halted = true := ⟨_, rfl, rfl, rfl⟩
  obtain ⟨m, hm, hattempts, hhalted⟩ := hrun
  have hload : Leads (new .headless) [.reset] ((new .headless).load returningTwice) :=
    @Leads.command _ _ _ _ 0 (.load returningTwice) _ .refl rfl
  have hleads := @Leads.command _ _ _ _ 6 .run _ hload hm
  -- The machine is paused, and then a step is tried.
  have hstep : m.pause.step = some (.error .halted, m.pause) := by
    unfold step
    exact if_pos hhalted
  have hdeeds : m.deeds 0 .pause ++ m.pause.deeds 0 .step =
      [.step m.pause (some (.error .halted, m.pause))] := by
    rw [← hstep]
    rfl
  have hpause : Leads m (m.deeds 0 .pause) m.pause := @Leads.command _ _ _ _ 0 .pause _ .refl rfl
  have hnext := @Leads.command _ _ _ _ 0 .step _ hpause hstep
  rw [hdeeds] at hnext
  obtain ⟨hnone, htrace⟩ := hidle m m.pause _ (.inl hhalted) hnext (by simp)
  exact ⟨m, m.pause, _, _, hleads, hattempts, hledger _ _ _ (.inl ⟨_, rfl⟩) hleads, hnext, rfl, hnone,
    htrace⟩

end Machine

end PixelMachine
