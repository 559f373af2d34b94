import LC3.Proofs.FormTable
import LC3.Proofs.LabelAddresses
import LC3.Proofs.Layout

/-!
# Which errors the passes give

The first pass stops at the first line with a flaw: a label that is taken, an opcode without a form
for its operands, or a label where the size of the line depends on a number. Nothing has been
written then. The second pass takes up lines without a flaw, so the only error left to it is a
label that is nowhere declared, and it has written the lines before.
-/

namespace LC3

namespace Line

/-- The line declares no label that is declared already. -/
def Fresh (declared : List String) (line : Line) : Prop :=
  ∀ name, line.label = some name → name ∉ declared

/-- What is wrong with a line after lines that declare these labels. A taken label comes before an
opcode without a form, and that before an operand. -/
inductive Flaw (declared : List String) (line : Line) : LayoutErrorKind → Prop
  | taken {name : String} (named : line.label = some name) (known : name ∈ declared) :
      Flaw declared line (.duplicateLabel name)
  | formless {opcode : String} (fresh : line.Fresh declared) (coded : line.opcode = some opcode)
      (unfit : Form.find? opcode line.operands = none) : Flaw declared line (.unknownForm opcode)
  | origin {name : String} (fresh : line.Fresh declared) (coded : line.opcode = some ".ORIG")
      (operands : line.operands = [.label name]) : Flaw declared line .originNotNumber
  | block {name : String} (fresh : line.Fresh declared) (coded : line.opcode = some ".BLKW")
      (operands : line.operands = [.label name]) : Flaw declared line (.unknownForm ".BLKW")

/-- The error of the first line with a flaw, unless `.END` comes before it. -/
inductive FirstFlaw : List String → List Line → LayoutError → Prop
  | here {declared : List String} {line : Line} {rest : List Line} {kind : LayoutErrorKind}
      (flawed : line.Flaw declared kind) : FirstFlaw declared (line :: rest) (line.error kind)
  | later {declared : List String} {line : Line} {rest : List Line} {e : LayoutError}
      (sound : ∀ kind, ¬line.Flaw declared kind) (going : line.opcode ≠ some Keyword.finish)
      (found : FirstFlaw (declared ++ line.label.toList) rest e) :
      FirstFlaw declared (line :: rest) e

variable {line : Line} {known : Labels} {a : Word}

theorem mem_names_iff {name : String} :
    name ∈ known.map Prod.fst ↔ (known.lookup name).isSome = true := by
  simp [eq_comm (a := name)]

theorem declare_of_taken {name : String} (named : line.label = some name)
    (taken : name ∈ known.map Prod.fst) :
    line.declare known a = .error (line.error (.duplicateLabel name)) := by
  simp only [declare, named, mem_names_iff.mp taken, if_true]

theorem declare_of_fresh (fresh : line.Fresh (known.map Prod.fst)) :
    ∃ known', line.declare known a = .ok known' := by
  rw [declare]
  split
  · exact ⟨_, rfl⟩
  · next name named =>
    rw [if_neg (mt mem_names_iff.mpr (fresh name named))]
    exact ⟨_, rfl⟩

theorem form?_of_find? {opcode : String} {form : Form} (coded : line.opcode = some opcode)
    (found : Form.find? opcode line.operands = some form) : line.form? = .ok (some form) := by
  simp only [form?, coded, found]

/-- The size of a line is known, unless a label stands where it depends on a number. -/
theorem exists_nextAddress {form : Form} (found : line.form? = .ok (some form))
    (numbered : line.opcode = some ".ORIG" ∨ line.opcode = some ".BLKW" →
      ∀ name, line.operands ≠ [.label name]) :
    ∃ next, line.nextAddress form a = .ok next := by
  obtain ⟨opcode, coded, hfind⟩ := form?_eq_ok_some found
  obtain ⟨known, -, accepted⟩ := Form.find?_spec hfind
  have right := (Form.kinds_template known).symm
  have directive : ∀ name, form.template.directive? = some name → line.opcode = some name :=
    fun name named => ((directive?_eq_some_iff found).mp named).2
  obtain ⟨name, slots, template⟩ := form
  cases template with
  | origin =>
    rcases Slot.operands_of_value accepted right with ⟨w, operands⟩ | ⟨label, operands⟩
    · exact ⟨w, by simp only [nextAddress, operands]⟩
    · exact absurd operands (numbered (.inl (directive _ rfl)) label)
  | block =>
    rcases Slot.operands_of_value accepted right with ⟨w, operands⟩ | ⟨label, operands⟩
    · exact ⟨a + w, by simp only [nextAddress, operands]⟩
    · exact absurd operands (numbered (.inr (directive _ rfl)) label)
  | text =>
    obtain ⟨s, operands⟩ := Slot.operands_of_text accepted right
    simp only [nextAddress, operands]
    exact ⟨_, rfl⟩
  | _ => exact ⟨_, rfl⟩

end Line

namespace Labels

variable {line : Line} {known : Labels} {a : Word}

/-- The first pass stops at a line with a flaw. -/
theorem collectFrom_of_flaw (rest : List Line) {kind : LayoutErrorKind}
    (flawed : line.Flaw (known.map Prod.fst) kind) :
    collectFrom known a (line :: rest) = .error (line.error kind) := by
  cases flawed with
  | taken named taken => simp only [collectFrom, Line.declare_of_taken named taken]
  | formless fresh coded unfit =>
    obtain ⟨known', declared⟩ := Line.declare_of_fresh (a := a) fresh
    simp only [collectFrom, declared, Line.form?, coded, unfit]
  | @origin name fresh coded operands =>
    obtain ⟨known', declared⟩ := Line.declare_of_fresh (a := a) fresh
    have found : Form.find? ".ORIG" line.operands = some ⟨".ORIG", [.immediate], .origin⟩ :=
      operands ▸ rfl
    simp only [collectFrom, declared, Line.form?_of_find? coded found, Line.nextAddress, operands]
    rfl
  | @block name fresh coded operands =>
    obtain ⟨known', declared⟩ := Line.declare_of_fresh (a := a) fresh
    have found : Form.find? ".BLKW" line.operands = some ⟨".BLKW", [.immediate], .block⟩ :=
      operands ▸ rfl
    simp only [collectFrom, declared, Line.form?_of_find? coded found, Line.nextAddress, operands]
    rfl

/-- The first pass gets past a line without a flaw, or ends there. -/
theorem collectFrom_of_sound (sound : ∀ kind, ¬line.Flaw (known.map Prod.fst) kind) :
    line.opcode = some Keyword.finish ∧
        (∃ labels, ∀ rest, collectFrom known a (line :: rest) = .ok labels) ∨
      line.opcode ≠ some Keyword.finish ∧ ∃ known' next,
        known'.map Prod.fst = known.map Prod.fst ++ line.label.toList ∧
          ∀ rest, collectFrom known a (line :: rest) = collectFrom known' next rest := by
  have fresh : line.Fresh (known.map Prod.fst) :=
    fun name named taken => sound _ (.taken named taken)
  obtain ⟨known', declared⟩ := Line.declare_of_fresh (a := a) fresh
  have names := Line.names_of_declare declared
  cases coded : line.opcode with
  | none =>
    have found : line.form? = .ok none := by simp only [Line.form?, coded]
    refine .inr ⟨by simp, known', a, names, fun rest => ?_⟩
    simp only [collectFrom, declared, found]
  | some opcode =>
    cases hfind : Form.find? opcode line.operands with
    | none => exact absurd (.formless fresh coded hfind) (sound _)
    | some form =>
      have found := Line.form?_of_find? coded hfind
      have finishes := Line.isFinish_form_iff found
      rw [coded] at finishes
      cases finish : form.template.isFinish with
      | true =>
        refine .inl ⟨finishes.mp finish, known', fun rest => ?_⟩
        simp only [collectFrom, declared, found, finish, if_true]
      | false =>
        have numbered : line.opcode = some ".ORIG" ∨ line.opcode = some ".BLKW" →
            ∀ name, line.operands ≠ [.label name] := by
          rintro (origin | block) name operands
          · exact sound _ (.origin fresh origin operands)
          · exact sound _ (.block fresh block operands)
        obtain ⟨next, sized⟩ := Line.exists_nextAddress (a := a) found numbered
        refine .inr ⟨mt finishes.mpr (by simp [finish]), known', next, names, fun rest => ?_⟩
        simp only [collectFrom, declared, found, finish, sized, Bool.false_eq_true, if_false]

/-- The first pass fails with the error of the first line that has a flaw, and only then. -/
theorem collectFrom_eq_error_iff {lines : List Line} {e : LayoutError} :
    collectFrom known a lines = .error e ↔ Line.FirstFlaw (known.map Prod.fst) lines e := by
  induction lines generalizing known a with
  | nil =>
    constructor
    · intro failed
      cases failed
    · intro found
      cases found
  | cons line rest ih =>
    by_cases flawed : ∃ kind, line.Flaw (known.map Prod.fst) kind
    · obtain ⟨kind, flaw⟩ := flawed
      rw [collectFrom_of_flaw rest flaw]
      constructor
      · rintro ⟨⟩
        exact .here flaw
      · rintro (other | ⟨sound, -, -⟩)
        -- A line has no second flaw: the pass gives one error for it.
        · exact (collectFrom_of_flaw (a := a) rest flaw).symm.trans (collectFrom_of_flaw rest other)
        · exact absurd flaw (sound kind)
    · have sound : ∀ kind, ¬line.Flaw (known.map Prod.fst) kind :=
        fun kind flaw => flawed ⟨kind, flaw⟩
      rcases collectFrom_of_sound (a := a) sound with
        ⟨finish, labels, ended⟩ | ⟨going, known', next, names, onward⟩
      · rw [ended rest]
        constructor
        · rintro ⟨⟩
        · rintro (flaw | ⟨-, going, -⟩)
          · exact absurd flaw (sound _)
          · exact absurd finish going
      · rw [onward rest, ih, names]
        constructor
        · exact .later sound going
        · rintro (flaw | ⟨-, -, found⟩)
          · exact absurd flaw (sound _)
          · exact found

end Labels

namespace Slot

variable {slot : Slot} {labels : Labels} {a : Word} {x : Operand}

theorem defined_of_resolve {argument : Argument} (resolved : slot.resolve labels a x = .ok argument)
    (name : String) (label : x = .label name) : labels.lookup name ≠ none := by
  subst label
  intro undefined
  simp [resolve, undefined] at resolved

theorem undefined_of_resolve {kind : LayoutErrorKind}
    (failed : slot.resolve labels a x = .error kind) :
    ∃ name, x = .label name ∧ labels.lookup name = none ∧ kind = .undefinedLabel name := by
  cases x with
  | label name =>
    simp only [resolve] at failed
    split at failed
    · cases failed
    · next undefined =>
      cases failed
      exact ⟨name, rfl, undefined, rfl⟩
  | _ => cases failed

/-- Operands resolve to arguments when their labels are defined. Otherwise the first label that is
not defined is the error. -/
theorem resolveAll_cases (labels : Labels) (a : Word) {slots : List Slot} {xs : List Operand}
    (accepted : acceptAll slots xs = true) :
    ((∃ arguments, resolveAll labels a slots xs = .ok arguments) ∧
        ∀ name, Operand.label name ∈ xs → labels.lookup name ≠ none) ∨
      ∃ before name after, xs = before ++ .label name :: after ∧ labels.lookup name = none ∧
        (∀ other, Operand.label other ∈ before → labels.lookup other ≠ none) ∧
        resolveAll labels a slots xs = .error (.undefinedLabel name) := by
  induction slots generalizing xs with
  | nil =>
    cases List.eq_nil_of_length_eq_zero (length_eq_of_acceptAll accepted).symm
    exact .inl ⟨⟨[], rfl⟩, by simp⟩
  | cons slot slots ih =>
    cases xs with
    | nil => exact absurd accepted (by simp [acceptAll])
    | cons x xs =>
      simp only [acceptAll, Bool.and_eq_true] at accepted
      cases first : slot.resolve labels a x with
      | error kind =>
        obtain ⟨name, rfl, undefined, rfl⟩ := undefined_of_resolve first
        refine .inr ⟨[], name, xs, rfl, undefined, by simp, ?_⟩
        simp only [resolveAll, first]
      | ok argument =>
        have defined := defined_of_resolve first
        rcases ih accepted.2 with
          ⟨⟨arguments, others⟩, later⟩ | ⟨before, name, after, rfl, undefined, earlier, others⟩
        · refine .inl ⟨⟨argument :: arguments, by simp only [resolveAll, first, others]⟩, ?_⟩
          intro name used
          rcases List.mem_cons.mp used with rfl | used
          · exact defined name rfl
          · exact later name used
        · refine .inr ⟨x :: before, name, after, rfl, undefined, ?_, ?_⟩
          · intro other used
            rcases List.mem_cons.mp used with rfl | used
            · exact defined other rfl
            · exact earlier other used
          · simp only [resolveAll, first, others]

end Slot

namespace Line

variable {line : Line} {labels : Labels} {a : Word}

/-- The labels that a line with an opcode uses are defined. -/
def Defined (labels : Labels) (line : Line) : Prop :=
  line.opcode ≠ none → ∀ name, Operand.label name ∈ line.operands → labels.lookup name ≠ none

/-- The label is the first that the line uses without being defined. -/
def FirstUndefined (labels : Labels) (line : Line) (name : String) : Prop :=
  line.opcode ≠ none ∧ ∃ before after, line.operands = before ++ .label name :: after ∧
    labels.lookup name = none ∧
    ∀ other, Operand.label other ∈ before → labels.lookup other ≠ none

/-- A line of known size has contents, or its first undefined label is the error. -/
theorem contents?_cases (labels : Labels) {found? : Option Form} (found : line.form? = .ok found?)
    (sized : ∀ form, found? = some form → ∃ next, line.nextAddress form a = .ok next) :
    (∃ c, line.contents? labels a = .ok c) ∧ line.Defined labels ∨
      ∃ name, line.FirstUndefined labels name ∧
        line.contents? labels a = .error (line.error (.undefinedLabel name)) := by
  cases found? with
  | none =>
    have bare := opcode_of_form?_eq_ok_none found
    refine .inl ⟨⟨none, ?_⟩, fun coded => absurd bare coded⟩
    simp only [contents?, translate?, found]
    rfl
  | some form =>
    obtain ⟨next, size⟩ := sized form rfl
    obtain ⟨opcode, coded, -⟩ := form?_eq_ok_some found
    rcases Slot.resolveAll_cases labels a (acceptAll_of_form? found) with
      ⟨⟨arguments, resolved⟩, defined⟩ | ⟨before, name, after, operands, undefined, earlier, failed⟩
    · obtain ⟨c, made⟩ := exists_contents found resolved
      refine .inl ⟨⟨some c, ?_⟩, fun _ => defined⟩
      simp only [contents?, translate?, found, resolved, size, made]
      rfl
    · refine .inr ⟨name, ⟨by simp [coded], before, after, operands, undefined, earlier⟩, ?_⟩
      simp only [contents?, translate?, found, failed]
      rfl

theorem FirstUndefined.not_defined {name : String} (undefined : line.FirstUndefined labels name) :
    ¬line.Defined labels := by
  obtain ⟨coded, before, after, operands, unknown, -⟩ := undefined
  intro defined
  exact defined coded name (by simp [operands]) unknown

theorem operands_of_finish {form : Form} (found : line.form? = .ok (some form))
    (finish : line.opcode = some Keyword.finish) : line.operands = [] := by
  obtain ⟨opcode, -, hfind⟩ := form?_eq_ok_some found
  obtain ⟨known, -, accepted⟩ := Form.find?_spec hfind
  have right := Form.kinds_template known
  have finishes : form.template.isFinish = true := (isFinish_form_iff found).mpr finish
  have none : form.template.kinds = [] := by
    generalize form.template = t at finishes
    cases t <;> cases finishes
    rfl
  have slots : form.slots = [] := List.map_eq_nil_iff.mp (right.symm.trans none)
  exact List.eq_nil_of_length_eq_zero
    ((Slot.length_eq_of_acceptAll accepted).symm.trans (by rw [slots]; rfl))

end Line

namespace Moment

variable {labels : Labels} {m m' : Machine} {a : Word} {line : Line} {lines rest : List Line}

/-- In step with the first pass, a line has no opcode, or a form under which its size is known. -/
theorem InStep.form? (together : InStep labels ⟨m, a, line :: rest⟩) :
    line.form? = .ok none ∨
      ∃ form next, line.form? = .ok (some form) ∧ line.nextAddress form a = .ok next := by
  obtain ⟨known, collected⟩ := together
  obtain ⟨known', -, ⟨bare, -⟩ | ⟨form, found, ⟨finish, -⟩ | ⟨-, next, sized, -⟩⟩⟩ :=
    Labels.collectFrom_cons collected
  · exact .inl bare
  · refine .inr ⟨form, a, found, ?_⟩
    obtain ⟨name, slots, template⟩ := form
    cases template <;> cases finish
    rfl
  · exact .inr ⟨form, next, found, sized⟩

/-- The line is the first before `.END` to use a label that is not defined, and it uses this one
first. The lines before are those given. -/
def StopsAt (labels : Labels) (lines before : List Line) (line : Line) (name : String) : Prop :=
  (∃ after, lines = before ++ line :: after) ∧
    (∀ l ∈ before, l.opcode ≠ some Keyword.finish ∧ l.Defined labels) ∧
    line.opcode ≠ some Keyword.finish ∧ line.FirstUndefined labels name

theorem StopsAt.mem_beforeFinish {before : List Line} {name : String}
    (stops : StopsAt labels lines before line name) : line ∈ Line.beforeFinish lines := by
  obtain ⟨⟨after, rfl⟩, earlier, going, -⟩ := stops
  have passed : ∀ l ∈ before, decide (l.opcode ≠ some Keyword.finish) = true :=
    fun l present => decide_eq_true (earlier l present).1
  rw [Line.beforeFinish, List.takeWhile_append_of_pos passed, ← Line.beforeFinish,
    Line.beforeFinish_cons going]
  exact List.mem_append_right before List.mem_cons_self

/-- In step with the first pass, the second one succeeds when all labels are defined. Otherwise it
has written the lines before the first one that uses an undefined label. -/
theorem emit_cases (together : InStep labels ⟨m, a, lines⟩) :
    (∃ m', m.emit labels a lines = (.ok (), m')) ∧
        (∀ line ∈ Line.beforeFinish lines, line.Defined labels) ∨
      ∃ before line name m', StopsAt labels lines before line name ∧
        m.emit labels a lines = (.error (line.error (.undefinedLabel name)), m') ∧
        m.emit labels a before = (.ok (), m') := by
  induction lines generalizing m a with
  | nil => exact .inl ⟨⟨m, rfl⟩, by simp [Line.beforeFinish]⟩
  | cons line rest ih =>
    obtain ⟨found?, found, sized⟩ : ∃ found?, line.form? = .ok found? ∧
        ∀ form, found? = some form → ∃ next, line.nextAddress form a = .ok next := by
      rcases together.form? with bare | ⟨form, next, found, sized⟩
      · exact ⟨none, bare, by simp⟩
      · refine ⟨some form, found, ?_⟩
        rintro _ ⟨⟩
        exact ⟨next, sized⟩
    rcases Line.contents?_cases labels found sized with
      ⟨⟨c, made⟩, defined⟩ | ⟨name, undefined, failed⟩
    · by_cases finish : c = some .finish
      · subst finish
        have last := (Line.layout_of_contents made).2.2.mpr rfl
        refine .inl ⟨⟨m, by simp only [Machine.emit_cons, made]⟩, ?_⟩
        simp [Line.beforeFinish_finish last]
      · obtain ⟨m₁, a₁, advances⟩ := advances_of_contents made finish m
        have going : line.opcode ≠ some Keyword.finish := by
          cases c with
          | none => exact (Line.layout_of_blank made).2.2.2
          | some c => simpa [(Line.layout_of_contents made).2.2] using finish
        -- Any lines may follow: those of the program, or those up to the error alone.
        have onward : ∀ rest, m.emit labels a (line :: rest) = m₁.emit labels a₁ rest :=
          fun rest => (advances rest).emit_eq
        rcases ih (together.advance (advances rest)) with
          ⟨⟨m', emitted⟩, later⟩ | ⟨before, l, name, m', stops, emitted, written⟩
        · refine .inl ⟨⟨m', (onward rest).trans emitted⟩, ?_⟩
          rw [Line.beforeFinish_cons going]
          exact List.forall_mem_cons.mpr ⟨defined, later⟩
        · obtain ⟨⟨after, rfl⟩, earlier, stop, undefined⟩ := stops
          refine .inr ⟨line :: before, l, name, m', ⟨⟨after, rfl⟩, ?_, stop, undefined⟩,
            (onward _).trans emitted, (onward _).trans written⟩
          exact List.forall_mem_cons.mpr ⟨⟨going, defined⟩, earlier⟩
    · refine .inr ⟨[], line, name, m, ⟨⟨rest, rfl⟩, by simp, ?_, undefined⟩,
        by simp only [Machine.emit_cons, failed], rfl⟩
      intro finish
      obtain ⟨coded, before, after, operands, -⟩ := undefined
      cases found? with
      | none => exact coded (Line.opcode_of_form?_eq_ok_none found)
      | some form => simp [Line.operands_of_finish found finish] at operands

end Moment

namespace Machine

variable (m : Machine) (lines : List Line)

/-- A program is refused with the error of its first flaw, and the machine is left alone. Without a
flaw it is refused only where a label is undefined: at the first line before `.END` that uses one,
with the lines before it written. The second pass never meets a line without a form, of unknown
size, or whose arguments its template makes nothing of. -/
theorem assemble_errors :
    (∀ e, Labels.collect lines = .error e ↔ Line.FirstFlaw [] lines e) ∧
    (∀ e, Labels.collect lines = .error e → m.assemble lines = (.error e, m)) ∧
    ∀ labels, Labels.collect lines = .ok labels →
      ((∃ e, (m.assemble lines).1 = .error e) ↔
        ∃ line ∈ Line.beforeFinish lines, ¬line.Defined labels) ∧
      (∀ e m', m.assemble lines = (.error e, m') →
        ∃ before line name, Moment.StopsAt labels lines before line name ∧
          e = line.error (.undefinedLabel name) ∧ m.emit labels 0 before = (.ok (), m')) ∧
      ∀ m' a line rest, Moment.Reaches labels ⟨m, 0, lines⟩ ⟨m', a, line :: rest⟩ →
        line.form? = .ok none ∨ ∃ form next, line.form? = .ok (some form) ∧
          line.nextAddress form a = .ok next ∧
          ∀ arguments, Slot.resolveAll labels a form.slots line.operands = .ok arguments →
            ∃ c, form.template.contents (line.opcode.getD "") arguments = .ok c := by
  refine ⟨fun e => Labels.collectFrom_eq_error_iff,
    fun e failed => m.assemble_of_collect_error failed, ?_⟩
  intro labels collected
  have start : Moment.InStep labels ⟨m, 0, lines⟩ := ⟨[], collected⟩
  refine ⟨?_, ?_, ?_⟩
  · rw [m.assemble_of_collect collected]
    rcases Moment.emit_cases start with
      ⟨⟨m', emitted⟩, defined⟩ | ⟨before, line, name, m', stops, emitted, -⟩
    · rw [emitted]
      constructor
      · rintro ⟨e, ⟨⟩⟩
      · rintro ⟨line, present, undefined⟩
        exact absurd (defined line present) undefined
    · rw [emitted]
      exact iff_of_true ⟨_, rfl⟩ ⟨line, stops.mem_beforeFinish, stops.2.2.2.not_defined⟩
  · intro e m' refused
    rw [m.assemble_of_collect collected] at refused
    rcases Moment.emit_cases start with
      ⟨⟨m₁, emitted⟩, -⟩ | ⟨before, line, name, m₁, stops, emitted, written⟩
    · rw [emitted] at refused
      cases refused
    · rw [emitted] at refused
      cases refused
      exact ⟨before, line, name, stops, rfl, written⟩
  · intro m' a line rest path
    rcases (start.reach path).form? with bare | ⟨form, next, found, sized⟩
    · exact .inl bare
    · exact .inr ⟨form, next, found, sized, fun arguments => Line.exists_contents found⟩

/-- A line of data, a line that uses an undefined label, and a line without a form after the end. -/
def undefinedLines : List Line :=
  [{ label := some "HERE", opcode := some ".FILL", operands := [.number 7], number := 1,
     span := ⟨0, 13⟩ },
    { opcode := some "LD", operands := [.register .r0, .label "GONE"], number := 2,
      span := ⟨14, 11⟩ },
    { opcode := some ".END", number := 3, span := ⟨26, 4⟩ },
    { opcode := some "NONE", number := 4, span := ⟨31, 4⟩ }]

/-- A label that is taken, on a line that has no form either. -/
def duplicateLines : List Line :=
  [{ label := some "HERE", number := 1, span := ⟨0, 4⟩ },
    { label := some "HERE", opcode := some "NONE", number := 2, span := ⟨5, 9⟩ }]

theorem errors_of_undefined_and_duplicate :
    (∃ m before line name,
      new.assemble undefinedLines = (.error ⟨.undefinedLabel "GONE", 2, ⟨14, 11⟩⟩, m) ∧
        Moment.StopsAt [("HERE", 0)] undefinedLines before line name ∧
        new.emit [("HERE", 0)] 0 before = (.ok (), m)) ∧
    (∃ form next, undefinedLines[1].form? = .ok (some form) ∧
      undefinedLines[1].nextAddress form 1 = .ok next) ∧
    Line.FirstFlaw [] duplicateLines ⟨.duplicateLabel "HERE", 2, ⟨5, 9⟩⟩ ∧
    new.assemble duplicateLines = (.error ⟨.duplicateLabel "HERE", 2, ⟨5, 9⟩⟩, new) := by
  obtain ⟨-, -, passes⟩ := assemble_errors new undefinedLines
  obtain ⟨-, stops, meets⟩ := passes [("HERE", 0)] rfl
  obtain ⟨flawed, refuses, -⟩ := assemble_errors new duplicateLines
  have refused : new.assemble undefinedLines =
      (.error ⟨.undefinedLabel "GONE", 2, ⟨14, 11⟩⟩, (new.assemble undefinedLines).2) := rfl
  obtain ⟨before, line, name, stop, -, written⟩ := stops _ _ refused
  have path : Moment.Reaches [("HERE", 0)] ⟨new, 0, undefinedLines⟩
      ⟨new.writeAll 0 [7], 1, undefinedLines.drop 1⟩ := .single (.words rfl)
  refine ⟨⟨_, before, line, name, refused, stop, written⟩, ?_, (flawed _).mp rfl, refuses _ rfl⟩
  rcases meets _ _ _ _ path with bare | ⟨form, next, found, sized, -⟩
  · cases bare
  · exact ⟨form, next, found, sized⟩

end Machine

end LC3
