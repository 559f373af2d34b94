import LC3.Assembly.Image
import LC3.Proofs.LineContents
import Mathlib.Logic.Relation

/-!
# The second pass, line by line

A moment of the second pass is the machine so far, the address counter and the lines ahead. The
pass goes from moment to moment by handling one line, and what it makes of the whole program is
what it makes of any moment that it reaches. A pass that succeeds reaches every line up to the
first `.END`.
-/

namespace LC3

/-- The second pass takes up a line by its contents, and goes on behind them. -/
theorem Machine.emit_cons (labels : Labels) (m : Machine) (a : Word) (line : Line)
    (rest : List Line) :
    m.emit labels a (line :: rest) =
      match line.contents? labels a with
      | .error e => (.error e, m)
      | .ok none => m.emit labels a rest
      | .ok (some (.words ws)) =>
        (m.writeAll a ws).emit labels (a + BitVec.ofNat 16 ws.length) rest
      | .ok (some (.origin o)) => (m.moveOrigin o).emit labels o rest
      | .ok (some .finish) => (.ok (), m) := by
  rw [emit, line.translate?_eq_contents?]
  rcases line.contents? labels a with _ | _ | _ | _ | _ <;> rfl

section

variable {labels : Labels} {m : Machine} {a : Word} {line : Line} {rest : List Line}

theorem Machine.emit_of_blank (made : line.contents? labels a = .ok none) :
    m.emit labels a (line :: rest) = m.emit labels a rest := by
  rw [emit_cons, made]

theorem Machine.emit_of_words (ws : List Word)
    (made : line.contents? labels a = .ok (some (.words ws))) :
    m.emit labels a (line :: rest) =
      (m.writeAll a ws).emit labels (a + BitVec.ofNat 16 ws.length) rest := by
  rw [emit_cons, made]

theorem Machine.emit_of_origin (o : Word) (made : line.contents? labels a = .ok (some (.origin o))) :
    m.emit labels a (line :: rest) = (m.moveOrigin o).emit labels o rest := by
  rw [emit_cons, made]

end

structure Moment where
  machine : Machine
  address : Word
  ahead : List Line

namespace Moment

/-- What the second pass makes of the lines ahead. -/
def emit (labels : Labels) (s : Moment) : Except LayoutError Unit × Machine :=
  s.machine.emit labels s.address s.ahead

/-- The second pass handles one line and goes on with the next. -/
inductive Advances (labels : Labels) : Moment → Moment → Prop
  | blank {m : Machine} {a : Word} {line : Line} {rest : List Line}
      (made : line.contents? labels a = .ok none) :
      Advances labels ⟨m, a, line :: rest⟩ ⟨m, a, rest⟩
  | words {m : Machine} {a : Word} {line : Line} {rest : List Line} {ws : List Word}
      (made : line.contents? labels a = .ok (some (.words ws))) :
      Advances labels ⟨m, a, line :: rest⟩
        ⟨m.writeAll a ws, a + BitVec.ofNat 16 ws.length, rest⟩
  | origin {m : Machine} {a o : Word} {line : Line} {rest : List Line}
      (made : line.contents? labels a = .ok (some (.origin o))) :
      Advances labels ⟨m, a, line :: rest⟩ ⟨m.moveOrigin o, o, rest⟩

def Reaches (labels : Labels) : Moment → Moment → Prop :=
  Relation.ReflTransGen (Advances labels)

theorem Advances.emit_eq {labels : Labels} {s t : Moment} (step : Advances labels s t) :
    s.emit labels = t.emit labels := by
  cases step with
  | blank made => exact Machine.emit_of_blank made
  | words made => exact Machine.emit_of_words _ made
  | origin made => exact Machine.emit_of_origin _ made

/-- What the pass makes of a moment does not change on the way. -/
theorem Reaches.emit_eq {labels : Labels} {s t : Moment} (path : Reaches labels s t) :
    s.emit labels = t.emit labels := by
  induction path with
  | refl => rfl
  | tail _ step ih => exact ih.trans step.emit_eq

/-- The second pass gets past a line with contents, whatever lines follow. -/
theorem advances_of_contents {labels : Labels} {a : Word} {line : Line} {c : Option Contents}
    (made : line.contents? labels a = .ok c) (going : c ≠ some .finish) (m : Machine) :
    ∃ m₁ a₁, ∀ rest, Advances labels ⟨m, a, line :: rest⟩ ⟨m₁, a₁, rest⟩ := by
  cases c with
  | none => exact ⟨m, a, fun _ => .blank made⟩
  | some c =>
    cases c with
    | words ws => exact ⟨_, _, fun _ => .words made⟩
    | origin o => exact ⟨_, _, fun _ => .origin made⟩
    | finish => exact absurd rfl going

/-- A pass that succeeds handles a first line that is not `.END`. -/
theorem exists_advances {labels : Labels} {m m' : Machine} {a : Word} {line : Line}
    {rest : List Line} (succeeds : emit labels ⟨m, a, line :: rest⟩ = (.ok (), m'))
    (going : line.opcode ≠ some Keyword.finish) :
    ∃ m₁ a₁, ∀ rest, Advances labels ⟨m, a, line :: rest⟩ ⟨m₁, a₁, rest⟩ := by
  cases made : line.contents? labels a with
  | error e =>
    simp only [emit, Machine.emit_cons, made] at succeeds
    cases succeeds
  | ok c =>
    refine advances_of_contents made ?_ m
    rintro rfl
    obtain ⟨form, arguments, found, -, -, makes⟩ := Line.makes_of_contents? made
    have finish : form.template.isFinish = true := by
      generalize form.template = t at makes
      cases makes
      rfl
    exact going ((Line.isFinish_form_iff found).mp finish)

/-- A pass that succeeds gets past lines without `.END`, whatever lines follow. -/
theorem exists_reaches {labels : Labels} {m m' : Machine} {a : Word} {before after : List Line}
    (succeeds : emit labels ⟨m, a, before ++ after⟩ = (.ok (), m'))
    (going : ∀ line ∈ before, line.opcode ≠ some Keyword.finish) :
    ∃ m₁ a₁, ∀ rest, Reaches labels ⟨m, a, before ++ rest⟩ ⟨m₁, a₁, rest⟩ := by
  induction before generalizing m a with
  | nil => exact ⟨m, a, fun _ => .refl⟩
  | cons line before ih =>
    obtain ⟨m₁, a₁, step⟩ := exists_advances succeeds (going line List.mem_cons_self)
    obtain ⟨m₂, a₂, path⟩ := ih ((step _).emit_eq.symm.trans succeeds)
      (fun l hl => going l (List.mem_cons_of_mem line hl))
    exact ⟨m₂, a₂, fun rest => .head (step _) (path rest)⟩

/-- Past some lines, what the pass makes of all the lines is what it makes of the others. -/
theorem emit_append {labels : Labels} {m m₁ : Machine} {a a₁ : Word} {before : List Line}
    (path : ∀ rest, Reaches labels ⟨m, a, before ++ rest⟩ ⟨m₁, a₁, rest⟩) :
    m.emit labels a before = (.ok (), m₁) ∧
      ∀ rest, m.emit labels a (before ++ rest) = m₁.emit labels a₁ rest := by
  have onward : ∀ rest, m.emit labels a (before ++ rest) = m₁.emit labels a₁ rest :=
    fun rest => (path rest).emit_eq
  have all := onward []
  rw [List.append_nil] at all
  exact ⟨all, onward⟩

end Moment

namespace Machine

theorem moveOrigin_eq (m : Machine) (origin : Word) :
    m.moveOrigin origin = { m with pc := if m.running then m.pc else origin } := by
  obtain ⟨memory, pc, registers, flag, running, executed, input, output⟩ := m
  cases running <;> rfl

/-- Laying lines out changes cells and the program counter only. -/
theorem frame_emit (m : Machine) (labels : Labels) (a : Word) (lines : List Line) :
    ∃ memory pc, (m.emit labels a lines).2 = { m with memory := memory, pc := pc } := by
  induction lines generalizing m a with
  | nil => exact ⟨m.memory, m.pc, rfl⟩
  | cons line rest ih =>
    rw [emit_cons]
    split
    · exact ⟨m.memory, m.pc, rfl⟩
    · exact ih m a
    · next ws _ => exact ih (m.writeAll a ws) _
    · next origin _ =>
      rw [moveOrigin_eq]
      exact ih { m with pc := if m.running then m.pc else origin } origin
    · exact ⟨m.memory, m.pc, rfl⟩

theorem frame_assemble (m : Machine) (lines : List Line) :
    ∃ memory pc, (m.assemble lines).2 = { m with memory := memory, pc := pc } := by
  rw [assemble]
  split
  · exact ⟨m.memory, m.pc, rfl⟩
  · next labels _ =>
    have frame := m.frame_emit labels 0 lines
    split <;>
    · next emitted =>
      rw [emitted] at frame
      exact frame

/-- An assembled machine is a new one but for its cells and its program counter. -/
theorem frame_of_assemble {source : String} {m : Machine} {labels : Labels}
    (assembled : LC3.assemble source = .ok (m, labels)) :
    ∃ memory pc, m = { new with memory := memory, pc := pc } := by
  rw [LC3.assemble] at assembled
  split at assembled
  · cases assembled
  · next lines _ =>
    have frame := new.frame_assemble lines
    split at assembled
    · next laid =>
      cases assembled
      rwa [laid] at frame
    · cases assembled

/-- Once the labels are known, the program is accepted or refused as the second pass succeeds. -/
theorem assemble_of_collect (m : Machine) {lines : List Line} {labels : Labels}
    (collected : Labels.collect lines = .ok labels) :
    m.assemble lines = Prod.map (Except.map fun _ => labels) id (m.emit labels 0 lines) := by
  simp only [assemble, collected]
  split
  · next emitted =>
    rw [emitted]
    rfl
  · next emitted =>
    rw [emitted]
    rfl

theorem assemble_of_collect_error (m : Machine) {lines : List Line} {e : LayoutError}
    (failed : Labels.collect lines = .error e) : m.assemble lines = (.error e, m) := by
  simp only [assemble, failed]

/-- A program is accepted when both passes succeed. -/
theorem assemble_eq_ok_iff {m m' : Machine} {lines : List Line} {labels : Labels} :
    m.assemble lines = (.ok labels, m') ↔
      Labels.collect lines = .ok labels ∧ m.emit labels 0 lines = (.ok (), m') := by
  rw [assemble]
  constructor
  · intro accepted
    split at accepted
    · cases accepted
    · next collected hcollect =>
      split at accepted
      · next n hemit =>
        cases accepted
        exact ⟨hcollect, hemit⟩
      · cases accepted
  · rintro ⟨collected, emitted⟩
    simp only [collected, emitted]

end Machine

end LC3
