import LC3.Proofs.Emission

/-!
# Both passes give a label the same address

The first pass computes sizes and the second one contents, in two walks of their own. The walks
stay in step through every form of line, so the address that the first pass records for a label is
the address counter of the second pass at the line of the label.
-/

namespace LC3

namespace Line

/-- The lines up to the first `.END`, and that one. -/
def throughFinish : List Line → List Line
  | [] => []
  | line :: rest =>
    if line.opcode = some Keyword.finish then [line] else line :: throughFinish rest

/-- The first pass records a label that is new, at the end. -/
theorem declare_eq_ok {line : Line} {known known' : Labels} {a : Word}
    (declared : line.declare known a = .ok known') :
    line.label = none ∧ known' = known ∨
      ∃ name, line.label = some name ∧ known.lookup name = none ∧
        known' = known ++ [(name, a)] := by
  rw [declare] at declared
  split at declared
  · next unnamed =>
    cases declared
    exact .inl ⟨unnamed, rfl⟩
  · next name named =>
    split at declared
    · cases declared
    · next new =>
      cases declared
      exact .inr ⟨name, named, Option.not_isSome_iff_eq_none.mp new, rfl⟩

theorem names_of_declare {line : Line} {known known' : Labels} {a : Word}
    (declared : line.declare known a = .ok known') :
    known'.map Prod.fst = known.map Prod.fst ++ line.label.toList := by
  rcases declare_eq_ok declared with ⟨unnamed, rfl⟩ | ⟨name, named, -, rfl⟩
  · rw [unnamed, Option.toList_none, List.append_nil]
  · rw [named, List.map_append, List.map_singleton, Option.toList_some]

theorem nodup_of_declare {line : Line} {known known' : Labels} {a : Word}
    (declared : line.declare known a = .ok known') (distinct : (known.map Prod.fst).Nodup) :
    (known'.map Prod.fst).Nodup := by
  rcases declare_eq_ok declared with ⟨-, rfl⟩ | ⟨name, -, new, rfl⟩
  · exact distinct
  · rw [List.map_append, List.map_singleton, List.nodup_append]
    refine ⟨distinct, by simp, ?_⟩
    intro other present same h
    rw [List.mem_singleton.mp h]
    rintro rfl
    obtain ⟨entry, hentry, name_eq⟩ := List.mem_map.mp present
    have different := List.lookup_eq_none_iff.mp new entry hentry
    simp [name_eq] at different

end Line

namespace Labels

/-- The ways in which the first pass gets past a line. -/
theorem collectFrom_cons {known labels : Labels} {a : Word} {line : Line} {rest : List Line}
    (collected : collectFrom known a (line :: rest) = .ok labels) :
    ∃ known', line.declare known a = .ok known' ∧
      (line.form? = .ok none ∧ collectFrom known' a rest = .ok labels ∨
      ∃ form, line.form? = .ok (some form) ∧
        (form.template.isFinish = true ∧ known' = labels ∨
        form.template.isFinish = false ∧ ∃ next, line.nextAddress form a = .ok next ∧
          collectFrom known' next rest = .ok labels)) := by
  rw [collectFrom] at collected
  split at collected
  · cases collected
  · next known' declared =>
    refine ⟨known', declared, ?_⟩
    split at collected
    · cases collected
    · next found => exact .inl ⟨found, collected⟩
    · next form found =>
      refine .inr ⟨form, found, ?_⟩
      split at collected
      · next finish =>
        cases collected
        exact .inl ⟨finish, rfl⟩
      · next going =>
        split at collected
        · cases collected
        · next sized => exact .inr ⟨by simpa using going, _, sized, collected⟩

/-- Labels are only ever added, and at the end. -/
theorem prefix_of_collectFrom {known labels : Labels} {a : Word} {lines : List Line}
    (collected : collectFrom known a lines = .ok labels) : known <+: labels := by
  induction lines generalizing known a with
  | nil =>
    cases collected
    exact List.prefix_rfl
  | cons line rest ih =>
    obtain ⟨known', declared, onward⟩ := collectFrom_cons collected
    have first : known <+: known' := by
      rcases Line.declare_eq_ok declared with ⟨-, rfl⟩ | ⟨name, -, -, rfl⟩
      · exact List.prefix_rfl
      · exact List.prefix_append _ _
    rcases onward with ⟨-, later⟩ | ⟨form, -, ⟨-, rfl⟩ | ⟨-, next, -, later⟩⟩
    · exact first.trans (ih later)
    · exact first
    · exact first.trans (ih later)

/-- The labels found are those of the lines up to the first `.END`, in the order of the lines. -/
theorem names_of_collectFrom {known labels : Labels} {a : Word} {lines : List Line}
    (collected : collectFrom known a lines = .ok labels) :
    labels.map Prod.fst =
      known.map Prod.fst ++ (Line.throughFinish lines).filterMap fun line => line.label := by
  induction lines generalizing known a with
  | nil =>
    cases collected
    simp [Line.throughFinish]
  | cons line rest ih =>
    obtain ⟨known', declared, onward⟩ := collectFrom_cons collected
    have names := Line.names_of_declare declared
    have label : [line].filterMap (fun line => line.label) = line.label.toList := by
      cases h : line.label <;> simp [h]
    rcases onward with ⟨found, later⟩ | ⟨form, found, ⟨finish, rfl⟩ | ⟨going, next, -, later⟩⟩
    · have blank := Line.opcode_of_form?_eq_ok_none found
      rw [ih later, names, Line.throughFinish, if_neg (by simp [blank]), ← List.singleton_append,
        List.filterMap_append, label, List.append_assoc]
    · rw [names, Line.throughFinish, if_pos ((Line.isFinish_form_iff found).mp finish), label]
    · have notFinish := mt (Line.isFinish_form_iff found).mpr (by simp [going])
      rw [ih later, names, Line.throughFinish, if_neg notFinish, ← List.singleton_append,
        List.filterMap_append, label, List.append_assoc]

theorem nodup_of_collectFrom {known labels : Labels} {a : Word} {lines : List Line}
    (collected : collectFrom known a lines = .ok labels)
    (distinct : (known.map Prod.fst).Nodup) : (labels.map Prod.fst).Nodup := by
  induction lines generalizing known a with
  | nil =>
    cases collected
    exact distinct
  | cons line rest ih =>
    obtain ⟨known', declared, onward⟩ := collectFrom_cons collected
    have distinct' := Line.nodup_of_declare declared distinct
    rcases onward with ⟨-, later⟩ | ⟨form, -, ⟨-, rfl⟩ | ⟨-, next, -, later⟩⟩
    · exact ih later distinct'
    · exact distinct'
    · exact ih later distinct'

/-- The first pass gets past a line with contents, to the address after them. -/
theorem collectFrom_next {known labels labels' : Labels} {a : Word} {line : Line}
    {rest : List Line} {c : Contents} (collected : collectFrom known a (line :: rest) = .ok labels)
    (made : line.contents? labels' a = .ok (some c)) (going : c ≠ .finish) :
    ∃ known', collectFrom known' (c.next a) rest = .ok labels := by
  obtain ⟨form, arguments, found, accepted, resolved, makes⟩ := Line.makes_of_contents? made
  obtain ⟨known', -, ⟨blank, -⟩ | ⟨form', found', onward⟩⟩ := collectFrom_cons collected
  · cases found.symm.trans blank
  · cases found.symm.trans found'
    rcases onward with ⟨finish, -⟩ | ⟨-, next, sized, later⟩
    · generalize form.template = t at makes finish
      cases makes with
      | instruction encodes => cases t <;> cases encodes <;> cases finish
      | finish => exact absurd rfl going
      | _ => cases finish
    · rw [Line.nextAddress_eq accepted resolved makes sized] at later
      exact ⟨known', later⟩

end Labels

namespace Moment

/-- The first pass stands where the second one does: it can go on from the address and the lines
of the moment, and ends with these labels. -/
def InStep (labels : Labels) (s : Moment) : Prop :=
  ∃ known, Labels.collectFrom known s.address s.ahead = .ok labels

theorem InStep.advance {labels : Labels} {s t : Moment} (together : InStep labels s)
    (step : Advances labels s t) : InStep labels t := by
  obtain ⟨known, collected⟩ := together
  cases step with
  | blank made =>
    obtain ⟨known', -, ⟨-, later⟩ | ⟨form, found, -⟩⟩ := Labels.collectFrom_cons collected
    · exact ⟨known', later⟩
    · cases (Line.form?_of_contents?_eq_ok_none made).symm.trans found
  | words made => exact Labels.collectFrom_next collected made (by simp)
  | origin made => exact Labels.collectFrom_next collected made (by simp)

theorem InStep.reach {labels : Labels} {s t : Moment} (together : InStep labels s)
    (path : Reaches labels s t) : InStep labels t := by
  induction path with
  | refl => exact together
  | tail _ step ih => exact ih.advance step

/-- In step, the label of the line ahead has been recorded at the address counter. -/
theorem InStep.lookup_eq {labels : Labels} {m : Machine} {a : Word} {line : Line}
    {rest : List Line} {name : String} (together : InStep labels ⟨m, a, line :: rest⟩)
    (named : line.label = some name) : labels.lookup name = some a := by
  obtain ⟨known, collected⟩ := together
  obtain ⟨known', declared, onward⟩ := Labels.collectFrom_cons collected
  have extended : known' <+: labels := by
    rcases onward with ⟨-, later⟩ | ⟨form, -, ⟨-, rfl⟩ | ⟨-, next, -, later⟩⟩
    · exact Labels.prefix_of_collectFrom later
    · exact List.prefix_rfl
    · exact Labels.prefix_of_collectFrom later
  obtain ⟨more, rfl⟩ := extended
  rcases Line.declare_eq_ok declared with ⟨unnamed, -⟩ | ⟨name', named', new, rfl⟩
  · cases unnamed.symm.trans named
  · cases named'.symm.trans named
    rw [List.append_assoc, List.lookup_append, new, Option.none_or, List.singleton_append,
      List.lookup_cons_self]

/-- When the first pass succeeds, it has recorded the labels of the lines up to the first `.END`,
each once and in order. Each line that the second pass reaches, in any machine, has an address: the
address counter with which the pass goes on there. The label of the line was recorded at that
address, and the first word of the line is written there. -/
theorem label_address_eq_counter {lines : List Line} {labels : Labels}
    (collected : Labels.collect lines = .ok labels) :
    labels.map Prod.fst = (Line.throughFinish lines).filterMap (fun line => line.label) ∧
    (labels.map Prod.fst).Nodup ∧
    ∀ (m m' : Machine) (before after : List Line) (line : Line),
      lines = before ++ line :: after → (∀ l ∈ before, l.opcode ≠ some Keyword.finish) →
      m.emit labels 0 before = (.ok (), m') →
      ∃ a, (∀ rest, m.emit labels 0 (before ++ rest) = m'.emit labels a rest) ∧
        (∀ name, line.label = some name → labels.lookup name = some a) ∧
        ∀ w ws, line.contents? labels a = .ok (some (.words (w :: ws))) →
          (∀ rest, m.emit labels 0 (before ++ line :: rest) =
            (m'.writeAll a (w :: ws)).emit labels (a + BitVec.ofNat 16 (w :: ws).length) rest) ∧
          (ws.length < 65536 → (m.emit labels 0 (before ++ [line])).2.peek a = w) := by
  refine ⟨Labels.names_of_collectFrom collected,
    Labels.nodup_of_collectFrom collected List.nodup_nil, ?_⟩
  rintro m m' before after line rfl going passed
  have alone : emit labels ⟨m, 0, before ++ []⟩ = (.ok (), m') := by
    rw [List.append_nil]
    exact passed
  obtain ⟨m₁, a, path⟩ := exists_reaches alone going
  obtain ⟨passed', onward⟩ := emit_append path
  obtain rfl : m₁ = m' := congrArg Prod.snd (passed'.symm.trans passed)
  have start : InStep labels ⟨m, 0, before ++ line :: after⟩ := ⟨[], collected⟩
  refine ⟨a, onward, fun name => (start.reach (path _)).lookup_eq, fun w ws made => ?_⟩
  have written : ∀ rest, m.emit labels 0 (before ++ line :: rest) =
      (m₁.writeAll a (w :: ws)).emit labels (a + BitVec.ofNat 16 (w :: ws).length) rest :=
    fun rest => (onward _).trans (Machine.emit_of_words _ made)
  refine ⟨written, fun small => ?_⟩
  rw [written []]
  have fits : (w :: ws).length ≤ 65536 := small
  have first := m₁.peek_writeAll a a fits
  rwa [BitVec.sub_self] at first

/-- A block that runs past the last address, and a label behind it. -/
def wrappingLines : List Line :=
  [{ label := some "TOP", opcode := some ".ORIG", operands := [.number 0xFFFE], number := 1,
     span := ⟨0, 15⟩ },
    { label := some "BLOCK", opcode := some ".BLKW", operands := [.number 3], number := 2,
      span := ⟨16, 14⟩ },
    { label := some "AFTER", opcode := some "HALT", number := 3, span := ⟨31, 10⟩ }]

def wrappingLabels : Labels := [("TOP", 0), ("BLOCK", 0xFFFE), ("AFTER", 1)]

/-- The instruction behind the block is in the second cell of memory, and so is its label. -/
theorem wrapping_label_address :
    Labels.collect wrappingLines = .ok wrappingLabels ∧
      (∃ m, Machine.new.emit wrappingLabels 0 (wrappingLines.take 2) = (.ok (), m)) ∧
      wrappingLabels.lookup "AFTER" = some 1 ∧
      (Machine.new.emit wrappingLabels 0 wrappingLines).2.peek 1 = 0xF025 := by
  have collected : Labels.collect wrappingLines = .ok wrappingLabels := rfl
  have passed : Machine.new.emit wrappingLabels 0 (wrappingLines.take 2) =
      (.ok (), (Machine.new.moveOrigin 0xFFFE).writeAll 0xFFFE [0, 0, 0]) :=
    (Machine.emit_of_origin 0xFFFE rfl).trans (Machine.emit_of_words [0, 0, 0] rfl)
  obtain ⟨a, -, recorded, words⟩ := (label_address_eq_counter collected).2.2 .new _
    (wrappingLines.take 2) [] wrappingLines[2] rfl (by decide) passed
  have address := recorded "AFTER" rfl
  obtain rfl : a = 1 := (Option.some.inj address).symm
  exact ⟨collected, ⟨_, passed⟩, address, (words 0xF025 [] rfl).2 (by decide)⟩

end Moment

end LC3
