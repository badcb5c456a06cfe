import PixelMachine.CommandLine.Session
import PixelMachine.Proofs.Twins

/-! Breakpoints and queries of the command line only watch: a run with them leaves behind what the run
without them leaves, but for the answers to the queries among the errors. -/
namespace PixelMachine

/-- The options without breakpoints and queries. -/
def Options.unwatched (o : Options) : Options := { o with breakpoints := [], queries := [] }

namespace Session

open Machine

/-- What the machine of a run is connected to. -/
def devices (o : Options) (input : String) (entropy : UInt64) : Devices where
  surface := .black o.surface.1.toNat o.surface.2.toNat
  keyboard := .ofKeys (keysOf input.toList)
  entropy := entropy

/-- The settings of a run. -/
def config (o : Options) : Config where
  width := o.width
  height := o.height
  pollInterval := o.pollInterval
  seed := o.seed

/-- A set with breakpoints of the command line added. -/
def addBreakpoints (addresses : List UInt64) (set : IndexSet) : IndexSet :=
  addresses.foldl (fun set address => set.insert address.toNat) set

theorem foldl_addBreakpoint (addresses : List UInt64) (m : Machine) :
    addresses.foldl (fun m address => (m.addBreakpoint address.toNat).2) m =
      { m with breakpoints := addBreakpoints addresses m.breakpoints } := by
  induction addresses generalizing m with
  | nil => rfl
  | cons address addresses ih => exact ih _

theorem prepare_eq (o : Options) (input : String) (entropy : UInt64) (program : Program) :
    prepare o input entropy program =
      (withConfig (devices o input entropy) (config o)).map fun m =>
        { m.load program with breakpoints := addBreakpoints o.breakpoints m.breakpoints } := by
  change (withConfig (devices o input entropy) (config o) >>= fun m =>
    pure (o.breakpoints.foldl (fun m address => (m.addBreakpoint address.toNat).2)
      (m.load program))) = _
  simp only [foldl_addBreakpoint]
  rcases withConfig (devices o input entropy) (config o) with e | m
  · rfl
  · rfl

/-- The entropy is good for a seed only. -/
theorem withConfig_entropy (d : Devices) (c : Config) (entropy : UInt64) :
    withConfig { d with entropy := entropy } c =
      (withConfig d c).map fun m => { m with random := .ofSeed (c.seed.getD entropy) } := by
  unfold withConfig
  rcases checkScreenSize .width c.width.toNat d.surface.width with e | _
  · rfl
  · rcases checkScreenSize .height c.height.toNat d.surface.height with e | _
    · rfl
    · rfl

/-- With breakpoints, and with whatever entropy, a run prepares a twin of the machine without. -/
theorem prepare_eq_map_twin (o : Options) (input : String) (e e' : UInt64) (program : Program) :
    prepare o input e' program = (prepare o.unwatched input e program).map fun m =>
      m.twin (addBreakpoints o.breakpoints .empty) m.observers (.ofSeed (o.seed.getD e')) := by
  have hdevices : devices o input e' = { devices o.unwatched input e with entropy := e' } := rfl
  rw [prepare_eq, prepare_eq, hdevices]
  change Except.map _ (withConfig _ (config o.unwatched)) = _
  rw [withConfig_entropy]
  rcases hm : withConfig (devices o.unwatched input e) (config o.unwatched) with fault | m
  · rfl
  · have hfree : m.breakpoints = .empty := by
      rw [eq_build_of_withConfig hm]
      rfl
    simp only [Except.map, hfree]
    rfl

/-- A machine that a run prepares is left alone, unless it has breakpoints. -/
theorem alone_of_prepare {o : Options} {input : String} {entropy : UInt64} {program : Program}
    {m : Machine} (h : prepare o.unwatched input entropy program = .ok m) :
    m.started.Alone ∧ m.random = .ofSeed (o.seed.getD entropy) := by
  rw [prepare_eq] at h
  rcases hm : withConfig (devices o.unwatched input entropy) (config o.unwatched) with fault | b
  · rw [hm] at h
    cases h
  · rw [hm, eq_build_of_withConfig hm] at h
    cases h
    have hkeys : (Keyboard.ofKeys (keysOf input.toList)).Meets (· = {}) := by
      refine ⟨?_, rfl⟩
      intro poll hpoll
      obtain ⟨key, _, rfl⟩ := List.mem_map.mp hpoll
      rfl
    exact ⟨⟨⟨⟨⟨rfl, nofun⟩, hkeys, nofun⟩, rfl⟩, rfl, rfl⟩, rfl⟩

/-- What a run starts with, if it gets as far as the program: the machine that is prepared for it. -/
def start (o : Options) (files : Files) (input : String) (entropy : UInt64) (why : String → String) :
    Except Transcript Machine :=
  match files.program with
  | .error reason => .error (refused ("failed to read " ++ o.program ++ ": " ++ reason ++ "\n"))
  | .ok text =>
    match readProgram? text with
    | none => .error (refused ("failed to parse " ++ o.program ++ why text))
    | some (.error e) => .error (refused ("failed to decode program: " ++ chain e ++ "\n"))
    | some (.ok program) =>
      (prepare o input entropy program).mapError fun e => refused (e.message ++ "\n")

/-- What a run does with the machine that it starts with. -/
def finish (fuel : Nat) (o : Options) (screen : Except String Unit) (m : Machine) :
    Option Transcript :=
  match m.run fuel with
  | none => none
  | some outcome =>
    match goOn fuel o.queries fuel outcome "" with
    | none => none
    | some ((result, m), errors) => some (conclude o screen result m errors)

theorem run_eq (fuel : Nat) (o : Options) (files : Files) (input : String) (entropy : UInt64)
    (why : String → String) : run fuel o files input entropy why =
      match start o files input entropy why with
      | .error t => some t
      | .ok m => finish fuel o files.screen m := by
  unfold run start
  rcases files.program with reason | text
  · rfl
  · dsimp only
    rcases readProgram? text with _ | (e | program)
    · rfl
    · rfl
    · dsimp only
      rcases prepare o input entropy program with e | m
      · rfl
      · rfl

theorem start_eq_map_twin (o : Options) (files : Files) (input : String) (e e' : UInt64)
    (why : String → String) :
    start o files input e' why = (start o.unwatched files input e why).map fun m =>
      m.twin (addBreakpoints o.breakpoints .empty) m.observers (.ofSeed (o.seed.getD e')) := by
  unfold start
  rcases files.program with reason | text
  · rfl
  · dsimp only
    rcases readProgram? text with _ | (cause | program)
    · rfl
    · rfl
    · dsimp only
      rw [prepare_eq_map_twin o input e e' program]
      rcases prepare o.unwatched input e program with fault | m
      · rfl
      · rfl

theorem alone_of_start {o : Options} {files : Files} {input : String} {entropy : UInt64}
    {why : String → String} {m : Machine} (h : start o.unwatched files input entropy why = .ok m) :
    m.started.Alone ∧ m.random = .ofSeed (o.seed.getD entropy) := by
  unfold start at h
  split at h
  · cases h
  · split at h
    · cases h
    · cases h
    · next program _ =>
      rcases hm : prepare o.unwatched input entropy program with fault | b
      · rw [hm] at h
        cases h
      · rw [hm] at h
        cases h
        exact alone_of_prepare hm

theorem goOn_of_halted {fuel : Nat} {queries : List String} {o : Outcome} (h : o.2.halted = true)
    (pauses : Nat) (errors : String) :
    goOn fuel queries (pauses + 1) o errors = some (o, errors) := by
  obtain ⟨e | _, m⟩ := o
  · rfl
  · have hh : m.halted = true := h
    simp [goOn, hh]

/-- A run goes through all pauses and answers the queries at each of them. -/
theorem goOn_of_resumedTo {fuel : Nat} {m : Machine} {pauses : List Machine} {o : Outcome}
    (h : ResumedTo fuel m pauses o) (queries : List String) :
    ∃ first, drive fuel none m = some first ∧
      ∀ n > pauses.length, ∀ errors, goOn fuel queries n first errors =
        some (o, errors ++ String.join (pauses.map (answers · queries))) := by
  induction h with
  | @ended m l r hd hh =>
    refine ⟨(r, l), hd, fun n hn errors => ?_⟩
    obtain ⟨n, rfl⟩ : ∃ k, n = k + 1 := ⟨n - 1, by omega⟩
    rw [goOn_of_halted hh]
    simp
  | @paused m p pauses o hd hp hh _ ih =>
    obtain ⟨next, hnext, hgoes⟩ := ih
    have hresume : p.resume fuel = some next := (resume_of_running hh fuel).trans hnext
    refine ⟨(.ok (), p), hd, fun n hn errors => ?_⟩
    obtain ⟨n, rfl⟩ : ∃ k, n = k + 1 := ⟨n - 1, by omega⟩
    have hlength : n > pauses.length := Nat.lt_of_succ_lt_succ hn
    have hstep : goOn fuel queries (n + 1) (.ok (), p) errors =
        goOn fuel queries n next (errors ++ answers p queries) := by
      simp [goOn, hp, hh, hresume]
    rw [hstep, hgoes n hlength]
    simp [String.append_assoc]

/-- A run concludes with what the last resumption leaves. -/
theorem finish_of_resumedTo {fuel : Nat} {m : Machine} {pauses : List Machine} {o : Outcome}
    (h : ResumedTo fuel m.started pauses o) (hlength : pauses.length < fuel) (options : Options)
    (screen : Except String Unit) :
    finish fuel options screen m = some (conclude options screen o.1 o.2
      (String.join (pauses.map (answers · options.queries)))) := by
  obtain ⟨first, hfirst, hgoes⟩ := goOn_of_resumedTo h options.queries
  have hend := hgoes fuel hlength ""
  rw [String.empty_append] at hend
  simp only [finish, run_eq_drive, hfirst, hend]

theorem report_twin (r : Except Fault Unit) (m : Machine) (breakpoints : IndexSet)
    (heard : Observers) (luck : Generator) :
    report r (m.twin breakpoints heard luck) = report r m := by
  cases r with
  | error e => rfl
  | ok _ => rfl

/-- A machine that is alone is driven once, and then the run is concluded. -/
theorem finish_of_alone {fuel : Nat} {o : Options} {screen : Except String Unit} {m : Machine}
    {t : Transcript} (hm : m.started.Alone) (h : finish fuel o.unwatched screen m = some t) :
    ∃ outcome, drive fuel none m.started = some outcome ∧
      t = conclude o.unwatched screen outcome.1 outcome.2 "" := by
  unfold finish at h
  rw [run_eq_drive] at h
  rcases hd : drive fuel none m.started with _ | outcome
  · rw [hd] at h
    cases h
  · obtain ⟨_, _, _, hlength, hgoes⟩ :=
      resumedTo_twin hd hm .empty m.started.observers m.started.random (.inl rfl)
    have hh : outcome.2.halted = true := hgoes.halted
    obtain ⟨fuel, rfl⟩ : ∃ k, fuel = k + 1 := ⟨fuel - 1, by omega⟩
    rw [hd] at h
    simp only [goOn_of_halted hh, Option.some.injEq] at h
    exact ⟨outcome, rfl, h.symm⟩

/-- What a twin leaves behind differs in the errors only, which begin with the answers. -/
theorem conclude_twin (o : Options) (screen : Except String Unit) (r : Except Fault Unit)
    (m : Machine) (breakpoints : IndexSet) (heard : Observers) (luck : Generator) (errors : String) :
    conclude o screen r (m.twin breakpoints heard luck) errors =
      { conclude o.unwatched screen r m "" with
        errors := errors ++ answers (m.twin breakpoints heard luck) o.queries ++
          (conclude o.unwatched screen r m "").errors } := by
  have hlog : (m.twin breakpoints heard luck).log = m.log := rfl
  have hscreen : (m.twin breakpoints heard luck).screen = m.screen := rfl
  have hquiet : answers m [] = "" := rfl
  -- A run that failed adds its error, and an image that cannot be written adds another.
  unfold conclude Options.unwatched
  rw [report_twin, hlog, hscreen, hquiet]
  rcases r with e | _
  · rcases o.dumpScreen with _ | path
    · simp [String.append_assoc]
    · rcases screen with reason | _ <;> simp [String.append_assoc]
  · rcases o.dumpScreen with _ | path
    · simp
    · rcases screen with reason | _ <;> simp [String.append_assoc]

/-- The answers that a run adds to its errors: one block for each pause and one for the end. A run that
does not get as far as the program answers nothing. -/
inductive Blocks (o : Options) (files : Files) (input : String) (entropy : UInt64)
    (why : String → String) : List String → Prop where
  | refused {t : Transcript} : start o files input entropy why = .error t →
      Blocks o files input entropy why []
  | ran {fuel : Nat} {m l : Machine} {pauses : List Machine} {r : Except Fault Unit} :
      start o files input entropy why = .ok m → ResumedTo fuel m.started pauses (r, l) →
      Blocks o files input entropy why ((pauses ++ [l]).map (answers · o.queries))

/-- Breakpoints and queries change nothing that a run leaves behind but its errors, which begin with the
answers at each pause and at the end. If the run without them terminates, so does the run with them, and
with no more fuel. Its luck is the same because there is a seed, or does not matter because no `irnd` is
executed. -/
theorem watching_changes_nothing {fuel : Nat} {o : Options} {files : Files} {input : String}
    {e e' : UInt64} {why : String → String} {t : Transcript}
    (h : run fuel o.unwatched files input e why = some t)
    (hluck : o.seed.isSome = true ∨
      ∀ m, start o.unwatched files input e why = .ok m → m.started.NeverRolls) :
    ∃ blocks, Blocks o files input e' why blocks ∧
      run fuel o files input e' why = some { t with errors := String.join blocks ++ t.errors } := by
  have hstart := start_eq_map_twin o files input e e' why
  rw [run_eq] at h
  rcases hm : start o.unwatched files input e why with refusal | m
  · -- The run does not get as far as the program, where nothing depends on what is watched.
    rw [hm] at h hstart
    cases h
    refine ⟨[], .refused hstart, ?_⟩
    rw [run_eq, hstart]
    simp [Except.map]
  · obtain ⟨halone, hrandom⟩ := alone_of_start hm
    rw [hm] at h hstart
    obtain ⟨outcome, hd, rfl⟩ := finish_of_alone halone h
    have hl : Generator.ofSeed (o.seed.getD e') = m.started.random ∨ m.started.NeverRolls := by
      rcases hluck with hseed | hnever
      · obtain ⟨seed, hseed⟩ := Option.isSome_iff_exists.mp hseed
        have hsame : m.started.random = m.random := rfl
        rw [hsame, hrandom, hseed]
        exact .inl rfl
      · exact .inr (hnever m hm)
    obtain ⟨heard, htwin⟩ := started_twin (addBreakpoints o.breakpoints .empty) m.observers
      (.ofSeed (o.seed.getD e')) m
    obtain ⟨pauses, heard', luck', hlength, hgoes⟩ :=
      resumedTo_twin hd halone (addBreakpoints o.breakpoints .empty) heard _ hl
    rw [← htwin] at hgoes
    refine ⟨_, .ran hstart hgoes, ?_⟩
    rw [run_eq, hstart]
    simp only [Except.map, finish_of_resumedTo hgoes hlength, conclude_twin]
    simp

/-- A run with a seed that is asked where it stands before its second instruction, where it fails for
want of an operand. -/
def askedOptions : Options :=
  { program := "roll.json", breakpoints := [2, 0, 9], queries := ["#PC", "nonsense"], seed := some 7,
    dumpScreen := some "roll.ppm", report := true }

def rollFiles : Files :=
  ⟨.ok "\x7b\"lines\": [\"nop\", \"irnd\"]\x7d", .ok ()⟩

theorem watching_changes_nothing_failed : ∃ t blocks,
    run 3 askedOptions.unwatched rollFiles "" 0 (fun _ => "\n") = some t ∧
      t.exitCode = 1 ∧ t.errors = "ReferenceError: empty stack when operand is needed by irnd\n" ∧
      Blocks askedOptions rollFiles "" 5 (fun _ => "\n") blocks ∧
      run 3 askedOptions rollFiles "" 5 (fun _ => "\n") =
        some { t with errors := String.join blocks ++ t.errors } ∧
      String.join blocks ++ t.errors =
        "#PC = 1\nnonsense: SyntaxError: invalid query \x60nonsense\x60\n" ++
        "#PC = 1\nnonsense: SyntaxError: invalid query \x60nonsense\x60\n" ++ t.errors := by
  have hbase : (run 3 askedOptions.unwatched rollFiles "" 0 (fun _ => "\n")).map
      (fun t => (t.exitCode, t.errors)) =
      some (1, "ReferenceError: empty stack when operand is needed by irnd\n") := by
    decide +kernel
  have hasked : (run 3 askedOptions rollFiles "" 5 (fun _ => "\n")).map (·.errors) = some
      ("#PC = 1\nnonsense: SyntaxError: invalid query \x60nonsense\x60\n" ++
        "#PC = 1\nnonsense: SyntaxError: invalid query \x60nonsense\x60\n" ++
        "ReferenceError: empty stack when operand is needed by irnd\n") := by
    decide +kernel
  obtain ⟨t, ht, hends⟩ := Option.map_eq_some_iff.mp hbase
  obtain ⟨hcode, herrors⟩ := Prod.mk.inj hends
  obtain ⟨blocks, hblocks, hrun⟩ := @watching_changes_nothing _ askedOptions _ _ _ 5 _ _ ht (.inl rfl)
  rw [hrun, Option.map_some, Option.some.injEq, ← herrors] at hasked
  exact ⟨t, blocks, ht, hcode, herrors, hblocks, hrun, hasked⟩

end Session

end PixelMachine
