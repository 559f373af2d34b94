import LC3.Proofs.Emission
import LC3.Proofs.StreamView

/-!
# A session ends as the streamed execution does

A session feeds input when the program waits for it and writes the output after each round, and its
machine follows the streamed execution. A round that ends the session ends the streamed execution
in the same way, and any other round completes an instruction or feeds a word. So, however the
input arrives, the session ends as the streamed execution does, with the same words written, and it
uses up every budget exactly when the streamed execution is endless.
-/

namespace LC3

namespace Transcript

/-- Reading takes the next bytes, no more than are asked for, and none only at the end. -/
theorem take_spec (n : Nat) (pieces : List (List UInt8)) :
    (take n pieces).1 ++ (take n pieces).2.flatten = pieces.flatten ∧
      (take n pieces).1.length ≤ n ∧
      (0 < n → (take n pieces).1 = [] → pieces.flatten = []) := by
  induction pieces with
  | nil => exact ⟨rfl, Nat.zero_le n, fun _ _ => rfl⟩
  | cons piece rest ih =>
    cases piece with
    | nil => exact ih
    | cons byte piece =>
      refine ⟨?_, List.length_take_le n _, fun positive nothing => ?_⟩
      · simp only [take, List.flatten_cons, ← List.append_assoc, List.take_append_drop]
      · simp only [take, List.take_eq_nil_iff, reduceCtorEq, or_false] at nothing
        exact absurd nothing (Nat.ne_of_gt positive)

/-- The transcript with the low bytes of more words written. -/
def put (t : Transcript) (words : List Word) : Transcript :=
  { t with output := t.output.appendList (words.map Word.lowByte) }

end Transcript

namespace Session

open Streamed (Ends Endless Quiet Allows)

/-- How a session without reports ends after its rounds. -/
def endingOf : Except String Machine → Ending
  | .ok _ => .success
  | .error message => .failure message

variable {m m' : Machine} {t : Transcript} {limit : Option Nat}

theorem flush_eq (m : Machine) (t : Transcript) :
    flush Transcript.console m t = (m.flushed, t.put m.output.items) := rfl

theorem feed_eq {bytes : List UInt8} {left : List (List UInt8)}
    (read : Transcript.take m.input.free t.input = (bytes, left)) :
    feed Transcript.console m t =
      (if bytes.isEmpty then none
        else some { m with input := (m.input.fill (bytes.map Word.ofByte)).2 },
        { t with input := left }) := by
  simp only [feed, Transcript.console, bind, StateT.bind, read]
  cases bytes <;> rfl

/-- A round runs the machine, flushes it, and ends or goes on. -/
theorem rounds_succ {result : Except Fault Outcome} {bytes : List UInt8} {left : List (List UInt8)}
    (n : Nat) : m.run (limit.map (· - m.executed)) = (result, m') →
    Transcript.take m'.input.free t.input = (bytes, left) →
    rounds Transcript.console limit (n + 1) m t =
      match result with
      | .error fault => (some (.error fault.message), t.put m'.output.items)
      | .ok .halted => (some (.ok m'.flushed), t.put m'.output.items)
      | .ok .executed =>
        if limit.isSome then
          (some (.error ("Program did not halt within " ++ m'.executed.repr ++ " instructions")),
            t.put m'.output.items)
        else rounds Transcript.console limit n m'.flushed (t.put m'.output.items)
      | .ok .waitingForInput =>
        if bytes.isEmpty then
          (some (.error "Program is waiting for input but stdin is closed"),
            { t.put m'.output.items with input := left })
        else
          rounds Transcript.console limit n
            { m'.flushed with input := (m'.input.fill (bytes.map Word.ofByte)).2 }
            { t.put m'.output.items with input := left }
      | .ok .waitingForOutput =>
        rounds Transcript.console limit n m'.flushed (t.put m'.output.items) := by
  intro ran read
  have fed := feed_eq (m := m'.flushed) (t := t.put m'.output.items) read
  simp only [rounds, ran, bind, StateT.bind, flush_eq]
  cases result with
  | error fault => rfl
  | ok outcome =>
    cases outcome with
    | halted | waitingForOutput => rfl
    | executed => cases limit <;> rfl
    | waitingForInput =>
      simp only [StateT.bind, fed]
      cases bytes <;> rfl

/-- A session between two rounds, with the words flushed so far: `k` instructions of the streamed
execution are done, and the input to be read is the input still to be fed. -/
structure Between (limit : Option Nat) (start : Streamed) (k : Nat) (m : Machine) (t : Transcript)
    (flushed : List Word) : Prop where
  follows : Streamed.Follows start k m (t.input.flatten.map Word.ofByte) flushed
  drained : m.output.items = []
  shown : t.output.toList = flushed.map Word.lowByte
  within : ∀ n, limit = some n → k ≤ n

/-- What a round comes to: the end of the streamed execution, or progress along it. -/
inductive Round (limit : Option Nat) (start : Streamed) (k : Nat) (m : Machine) (t : Transcript) :
    Prop
  | ends (verdict : Except String Machine) (words : List Word) (t' : Transcript)
      (ends : Ends limit start (endingOf verdict) words)
      (shown : t'.output.toList = words.map Word.lowByte)
      (same : ∀ n, rounds Transcript.console limit (n + 1) m t = (some verdict, t'))
  | continues (k' : Nat) (m' : Machine) (t' : Transcript) (flushed : List Word)
      (between : Between limit start k' m' t' flushed)
      (progress : k + t'.input.flatten.length < k' + t.input.flatten.length)
      (same : ∀ n, rounds Transcript.console limit (n + 1) m t =
        rounds Transcript.console limit n m' t')

variable {start : Streamed} {k : Nat} {flushed : List Word}

theorem shown_put (shown : t.output.toList = flushed.map Word.lowByte) (words : List Word) :
    (t.put words).output.toList = (flushed ++ words).map Word.lowByte := by
  rw [List.map_append, ← shown]
  exact Array.toList_appendList

/-- Flushing after a run leaves the session between two rounds. -/
theorem Between.of_flush
    (follows : Streamed.Follows start k m (t.input.flatten.map Word.ofByte) flushed)
    (shown : t.output.toList = flushed.map Word.lowByte) (within : ∀ n, limit = some n → k ≤ n) :
    Between limit start k m.flushed (t.put m.output.items) (flushed ++ m.output.items) :=
  ⟨follows.flush, rfl, shown_put shown m.output.items, within⟩

/-- A run of a round makes at most as many steps as the limit still allows. -/
theorem run_between (between : Between limit start k m t flushed) :
    m.run (limit.map (· - m.executed)) =
      m.runFor ((limit.map (· - k)).getD Machine.longestRun) := by
  have started : m.start = m := by
    rw [Machine.start, ← between.follows.running]
  rw [Machine.run, started, between.follows.counted]

theorem allows_run (k : Nat) {i : Nat}
    (less : i < (limit.map (· - k)).getD Machine.longestRun) : Allows limit (k + i) := by
  rintro n rfl
  exact Nat.add_lt_of_lt_sub' less

/-- A round that stops for input ends the session when there is none, and feeds some otherwise. -/
theorem Between.round_of_waitingForInput {k' : Nat} {m₁ m₂ : Machine}
    (between : Between limit start k m t flushed) (quiet : Quiet limit start)
    (reached : Streamed.Follows start k' m₁ (t.input.flatten.map Word.ofByte) flushed)
    (later : k ≤ k') (allowed : Allows limit k')
    (stepped : m₁.step = (.ok .waitingForInput, m₂))
    (ran : m.run (limit.map (· - m.executed)) = (.ok .waitingForInput, m₂)) :
    Round limit start k m t := by
  obtain ⟨hungry, -⟩ := Machine.step_waitingForInput (congrArg Prod.fst stepped)
  cases Machine.step_of_isWaiting rfl stepped
  obtain ⟨whole, fits, ended⟩ := Transcript.take_spec m₁.input.free t.input
  rcases read : Transcript.take m₁.input.free t.input with ⟨bytes, left⟩
  simp only [read] at whole fits ended
  have next := fun n => rounds_succ (t := t) n ran read
  cases bytes with
  | nil =>
    have room : 0 < m₁.input.free := Queue.free_of_items_eq_nil hungry ▸ reached.inlet
    have starved : m₁.input.items ++ t.input.flatten.map Word.ofByte = [] := by
      rw [hungry, ended room rfl]
      rfl
    have ends := reached.ends quiet allowed stepped rfl fun _ => starved
    exact .ends (.error _) _ { t.put m₁.output.items with input := left } ends
      (shown_put between.shown _) next
  | cons byte bytes =>
    have pending : (byte :: bytes).map Word.ofByte ++ left.flatten.map Word.ofByte =
        t.input.flatten.map Word.ofByte := by
      rw [← List.map_append, whole]
    have fed := reached.flush.feed pending (by rwa [List.length_map])
    have settled : Between limit start k' _ { t.put m₁.output.items with input := left } _ :=
      ⟨fed, rfl, shown_put between.shown _, fun n limited => Nat.le_of_lt (allowed n limited)⟩
    have lengths := congrArg List.length whole
    simp only [List.length_append, List.length_cons] at lengths
    exact .continues k' _ _ _ settled (by dsimp only; omega) next

/-- A round ends the streamed execution, or makes progress along it. -/
theorem Between.round (between : Between limit start k m t flushed) (quiet : Quiet limit start) :
    Round limit start k m t := by
  obtain ⟨i, m₁, reached, begun, ended⟩ :=
    between.follows.runFor quiet _ fun i less => allows_run k less
  rw [← run_between between] at ended
  rcases ended with ⟨all, ran⟩ | ⟨less, stuck, ran⟩
  · -- The run has made all the steps that it may make.
    have next := fun n => rounds_succ (t := t) n ran rfl
    cases limit with
    | none =>
      have settled : Between none start (k + i) _ _ _ := .of_flush reached between.shown nofun
      have positive : 0 < i := all ▸ (show 0 < Machine.longestRun by decide)
      exact .continues (k + i) _ _ _ settled
        (Nat.add_lt_add_right (Nat.lt_add_of_pos_right positive) _) next
    | some n =>
      have last : m₁.executed = n := by
        rw [reached.counted, all]
        exact Nat.add_sub_of_le (between.within n rfl)
      obtain ⟨input, -, at_last⟩ := reached.ran
      rw [← reached.counted, last] at at_last
      refine .ends (.error _) _ _ ?_ (shown_put between.shown _) next
      rw [endingOf, last]
      exact .exhausted rfl at_last
  · -- The run has come to a step that does not go on.
    rcases stepped : m₁.step with ⟨result, m₂⟩
    rw [stepped] at ran stuck
    have allowed := allows_run k less
    have next := fun n => rounds_succ (t := t) n ran rfl
    match result with
    | .error fault =>
      have ends := reached.ends quiet allowed stepped rfl nofun
      exact .ends (.error _) _ _ ends (shown_put between.shown _) next
    | .ok .halted =>
      have ends := reached.ends quiet allowed stepped rfl nofun
      exact .ends (.ok _) _ _ ends (shown_put between.shown _) next
    | .ok .executed => exact absurd rfl stuck
    | .ok .waitingForInput =>
      exact between.round_of_waitingForInput quiet reached (Nat.le_add_right k i) allowed stepped
        ran
    | .ok .waitingForOutput =>
      -- The output queue is empty when the run begins, so the first step does not wait for it.
      have positive : i ≠ 0 := by
        intro first
        cases begun first
        exact Machine.step_ne_waitingForOutput between.drained reached.outlet
          (congrArg Prod.fst stepped)
      cases Machine.step_of_isWaiting rfl stepped
      have settled := Between.of_flush reached between.shown fun n limited =>
        Nat.le_of_lt (allowed n limited)
      exact .continues (k + i) _ _ _ settled (by dsimp only [Transcript.put]; omega) next

/-- Rounds end as the streamed execution does, or all of them make progress along it. -/
theorem Between.rounds (between : Between limit start k m t flushed) (quiet : Quiet limit start)
    (n : Nat) :
    (∃ verdict words t', rounds Transcript.console limit n m t = (some verdict, t') ∧
      Ends limit start (endingOf verdict) words ∧ t'.output.toList = words.map Word.lowByte) ∨
    ∃ k' t', rounds Transcript.console limit n m t = (none, t') ∧
      (∀ n, limit = some n → k' ≤ n) ∧ (start.after k').isSome = true ∧
      n + k ≤ k' + t.input.flatten.length := by
  induction n generalizing k m t flushed with
  | zero =>
    obtain ⟨input, -, ran⟩ := between.follows.ran
    refine .inr ⟨k, t, rfl, between.within, ?_, ?_⟩
    · rw [ran]
      rfl
    · omega
  | succ n ih =>
    cases between.round quiet with
    | ends verdict words t' ends shown same => exact .inl ⟨verdict, words, t', same n, ends, shown⟩
    | continues k' m' t' flushed' between' progress same =>
      rw [same n]
      rcases ih between' with ended | ⟨last, t'', used, within, reached, far⟩
      · exact .inl ended
      · exact .inr ⟨last, t'', used, within, reached, by omega⟩

/-- An assembled machine is at the beginning of its streamed execution. -/
theorem between_begin {source : String} {labels : Labels}
    (assembled : assemble source = .ok (m, labels)) (blank : t.output = #[]) :
    Between limit (.begin m (t.input.flatten.map Word.ofByte)) 0 m.start t [] := by
  obtain ⟨memory, pc, rfl⟩ := Machine.frame_of_assemble assembled
  refine ⟨⟨⟨⟨t.input.flatten.map Word.ofByte, _, Nat.le_refl _⟩, rfl, rfl⟩, rfl, rfl, ?_, ?_⟩,
    rfl, congrArg Array.toList blank, fun n _ => Nat.zero_le n⟩
  · exact Nat.succ_pos 63
  · exact Nat.succ_pos 63

theorem rounds_start (limit : Option Nat) (n : Nat) (m : Machine) (t : Transcript) :
    rounds Transcript.console limit n m.start t = rounds Transcript.console limit n m t := by
  cases n <;> rfl

/-- A session that runs a program without reports ends as its rounds do. -/
theorem startWithin_run {source file : String} {labels : Labels} {arguments : List String}
    {reader : List String → Except CommandLine.UsageError Command}
    (assembled : assemble source = .ok (m, labels)) (present : t.files file = .ok source)
    (asked : reader arguments = .ok (.run file true limit))
    (variableValue : String → Option String) (budget : Nat) :
    startWithin reader budget Transcript.console arguments variableValue t =
      match rounds Transcript.console (limit <|> (Settings.read variableValue).stepLimit) budget
        m t with
      | (some verdict, t) => (endingOf verdict, t)
      | (none, t) => (.unfinished, t) := by
  have read : assembleFile Transcript.console file t = (.ok (m, labels), t) := by
    simp only [assembleFile, Transcript.console, bind, StateT.bind, present, assembled]
    rfl
  simp only [startWithin, asked, carryOut, run, bind, Bool.not_true, Bool.false_eq_true, ↓reduceIte]
  rw [StateT.bind, read]
  simp only [bind, runMachine, StateT.bind]
  rcases rounds Transcript.console _ budget m t with ⟨_ | _ | _, t'⟩ <;> rfl

/-- A session that runs a program without reports refines the streamed execution of the program,
however its arguments are read and its input arrives. When the streamed execution ends, with status zero if it has halted and
one otherwise, every large enough budget makes the session end in the same way with the same words
written, each as its low byte; when it is endless, no budget is enough; and it does one or the
other. -/
theorem session_refines_stream {source file : String} {labels : Labels} {arguments : List String}
    {reader : List String → Except CommandLine.UsageError Command}
    {variableValue : String → Option String} {files : String → Except String String}
    {pieces : List (List UInt8)} (assembled : assemble source = .ok (m, labels))
    (present : files file = .ok source) (asked : reader arguments = .ok (.run file true limit))
    (quiet : Quiet (limit <|> (Settings.read variableValue).stepLimit)
      (.begin m (pieces.flatten.map Word.ofByte))) :
    let effective := limit <|> (Settings.read variableValue).stepLimit
    let streamed := Streamed.begin m (pieces.flatten.map Word.ofByte)
    let session : Nat → Ending × Transcript := fun budget =>
      startWithin reader budget Transcript.console arguments variableValue ⟨files, pieces, #[]⟩
    (∀ ending words, Ends effective streamed ending words →
      ending.status = (if ending = .success then 0 else 1) ∧
      ∃ enough, ∀ budget ≥ enough, (session budget).1 = ending ∧
        (session budget).2.output.toList = words.map Word.lowByte) ∧
    (Endless effective streamed → ∀ budget, (session budget).1 = .unfinished) ∧
    ((∃ ending words, Ends effective streamed ending words) ∨ Endless effective streamed) := by
  intro effective streamed session
  have between : Between effective streamed 0 m.start ⟨files, pieces, #[]⟩ [] :=
    between_begin (t := ⟨files, pieces, #[]⟩) assembled rfl
  have session_eq := startWithin_run (t := ⟨files, pieces, #[]⟩) assembled present asked
    variableValue
  have outcome := between.rounds quiet
  simp only [rounds_start] at outcome
  refine ⟨fun ending words ends => ?_, fun endless budget => ?_, ?_⟩
  · obtain ⟨last, bound⟩ := ends.exists_last
    refine ⟨ends.status_eq, last + pieces.flatten.length + 1, fun budget enough => ?_⟩
    rcases outcome budget with ⟨verdict, words', t', same, ends', shown⟩ |
      ⟨k, t', -, within, reached, far⟩
    · obtain ⟨rfl, rfl⟩ := ends.unique ends'
      simp only [session, session_eq, effective] at same ⊢
      rw [same]
      exact ⟨rfl, shown⟩
    · -- So many rounds would have gone past the last instruction.
      have latest := bound k within reached
      omega
  · rcases outcome budget with ⟨verdict, words, t', -, ends, -⟩ | ⟨k, t', same, -⟩
    · exact absurd ends endless.not_ends
    · simp only [session, session_eq, effective] at same ⊢
      rw [same]
  · obtain ⟨memory, pc, fresh⟩ := Machine.frame_of_assemble assembled
    have silent : streamed.machine.output = .empty 64 := by
      simp only [streamed, Streamed.begin, fresh]
      rfl
    apply Streamed.ends_or_endless
    · rw [silent]
      rfl
    · rw [silent]
      exact Nat.succ_pos 63

/-- Copies its input to its output. -/
def copyProgram : String := "COPY GETC\nOUT\nJSR COPY\n"

def copyMachine : Machine := Machine.new.writeAll 0 [0xF020, 0xF021, 0x4FFD]

/-- The program copies two bytes that arrive one by one, and waits for a third in vain. -/
theorem copyProgram_refines_stream :
    ∃ enough, ∀ budget ≥ enough,
      let result := startWithin CommandLine.read budget Transcript.console
        ["run", "copy.asm", "--minimal"] (fun _ => none) ⟨fun _ => .ok copyProgram, [[0x48], [], [0x69]], #[]⟩
      result.1 = .failure "Program is waiting for input but stdin is closed" ∧
        result.2.output.toList = [0x48, 0x69] := by
  have assembled : assemble copyProgram = .ok (copyMachine, [("COPY", 0)]) := by
    with_unfolding_all rfl
  have stopped : (((Streamed.begin copyMachine [0x48, 0x69]).after 6).map fun s =>
      (Streamed.ending? s.step.1, s.step.2.written)) =
      some (some (.failure "Program is waiting for input but stdin is closed"), [0x48, 0x69]) := by
    decide +kernel
  obtain ⟨s, ran, last⟩ := Option.map_eq_some_iff.mp stopped
  obtain ⟨stops, written⟩ := Prod.mk.inj last
  have silent : ∀ n ≤ 6, ((Streamed.begin copyMachine [0x48, 0x69]).after n).all fun s =>
      decide (Machine.keyboardStatus ∉ s.machine.stepLoads) := by
    decide +kernel
  have quiet : Quiet none (.begin copyMachine [0x48, 0x69]) := by
    refine Streamed.quiet_of_stops ran (Streamed.ending?_ne_executed stops) fun n le s' ran' => ?_
    have checked := silent n le
    rwa [ran', Option.all_some, decide_eq_true_eq] at checked
  have ends : Ends none _ _ _ := .stopped nofun ran stops
  rw [written] at ends
  have asked : CommandLine.read ["run", "copy.asm", "--minimal"] =
      .ok (.run "copy.asm" true none) := rfl
  have refines := @session_refines_stream copyMachine none copyProgram "copy.asm" _ _ _
    (fun _ => none) (fun _ => .ok copyProgram) [[0x48], [], [0x69]] assembled rfl asked quiet
  exact (refines.1 _ _ ends).2

end Session

end LC3
