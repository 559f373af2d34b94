import LC3.Proofs.FormTable
import LC3.Proofs.Listing
import Mathlib.Data.List.Nodup

/-!
# Keywords and forms describe one language

The reader has a list of keywords, the assembler a table of forms, and the branches a mnemonic for
each set of signs. A name is a keyword exactly if there is a form under it. What the slots of a form
accept depends on the kinds of the operands alone, and no two forms have both opcode and kinds in
common, so the order of the table does not matter.
-/

namespace LC3

def Operand.kind : Operand → Kind
  | .register _ => .register
  | .number _ | .label _ => .value
  | .string _ => .text

def Kind.operand : Kind → Operand
  | .register => .register .r0
  | .value => .number 0
  | .text => .string ""

theorem Kind.kind_operand (k : Kind) : k.operand.kind = k := by
  cases k <;> rfl

namespace Slot

theorem accepts_iff (slot : Slot) (x : Operand) : slot.accepts x = true ↔ slot.kind = x.kind := by
  cases slot <;> cases x <;> simp [accepts, kind, Operand.kind]

/-- Slots accept the operands of their kinds. -/
theorem acceptAll_iff (slots : List Slot) (xs : List Operand) :
    acceptAll slots xs = true ↔ slots.map kind = xs.map Operand.kind := by
  induction slots generalizing xs with
  | nil => cases xs <;> simp [acceptAll]
  | cons slot slots ih =>
    cases xs with
    | nil => simp [acceptAll]
    | cons x xs => simp [acceptAll, accepts_iff, ih]

/-- For any slots there are operands that they accept. -/
theorem exists_acceptAll (slots : List Slot) : ∃ xs, acceptAll slots xs = true := by
  refine ⟨slots.map fun slot => slot.kind.operand, (acceptAll_iff _ _).mpr ?_⟩
  simp [Function.comp_def, Kind.kind_operand]

end Slot

namespace Condition

theorem eq_append_strip (letter : Char) (text : List Char) :
    text = (if (strip letter text).1 then [letter] else []) ++ (strip letter text).2 := by
  cases text with
  | nil => rfl
  | cons c rest =>
    rw [strip]
    split
    · next same =>
      rw [same]
      rfl
    · rfl

theorem toList_mnemonic (c : Condition) :
    c.mnemonic.toList = 'B' :: 'R' :: ((if c.negative then ['N'] else []) ++
      ((if c.zero then ['Z'] else []) ++ if c.positive then ['P'] else [])) := by
  obtain ⟨n, z, p⟩ := c
  cases n <;> cases z <;> cases p <;> rfl

/-- The branch mnemonics are the names of the conditions, and `BR` for all signs. -/
theorem ofMnemonic?_eq_some_iff {mnemonic : String} {c : Condition} :
    ofMnemonic? mnemonic = some c ↔
      c.isEmpty = false ∧ mnemonic = c.mnemonic ∨ mnemonic = "BR" ∧ c = always := by
  constructor
  · intro named
    have nonempty := isEmpty_of_ofMnemonic? named
    rw [ofMnemonic?] at named
    split at named
    · next bare =>
      cases named
      exact .inr ⟨String.toList_inj.mp bare, rfl⟩
    · next suffix _ spelled =>
      simp only [Option.ite_none_right_eq_some, Option.some.injEq] at named
      obtain ⟨consumed, rfl⟩ := named
      refine .inl ⟨nonempty, String.toList_inj.mp ?_⟩
      rw [spelled, toList_mnemonic]
      have first := eq_append_strip 'N' suffix
      have second := eq_append_strip 'Z' (strip 'N' suffix).2
      have third := eq_append_strip 'P' (strip 'Z' (strip 'N' suffix).2).2
      rw [List.isEmpty_iff.mp consumed, List.append_nil] at third
      rw [third] at second
      rw [second] at first
      exact congrArg ('B' :: 'R' :: ·) first
    · cases named
  · rintro (⟨nonempty, rfl⟩ | ⟨rfl, rfl⟩)
    · exact ofMnemonic?_mnemonic nonempty
    · rfl

end Condition

namespace Form

def shape (f : Form) : String × List Kind := (f.opcode, f.slots.map Slot.kind)

theorem accepts_iff (f : Form) (k : String) (xs : List Operand) :
    f.accepts k xs = true ↔ f.shape = (k, xs.map Operand.kind) := by
  simp [accepts, shape, Slot.acceptAll_iff]

theorem nodup_shapes : (all.map shape).Nodup := by decide

/-- At most one entry of the table accepts the operands. -/
theorem length_filter_accepts_le (k : String) (xs : List Operand) :
    (all.filter (·.accepts k xs)).length ≤ 1 := by
  have distinct : ((all.filter (·.accepts k xs)).map shape).Nodup :=
    nodup_shapes.sublist (List.filter_sublist.map shape)
  have same : ∀ s ∈ (all.filter (·.accepts k xs)).map shape, s = (k, xs.map Operand.kind) := by
    intro s present
    obtain ⟨f, kept, rfl⟩ := List.mem_map.mp present
    exact (f.accepts_iff k xs).mp (List.mem_filter.mp kept).2
  rw [List.eq_replicate_of_mem same, List.nodup_replicate, List.length_map] at distinct
  exact distinct

theorem eq_of_accepts {f g : Form} {k : String} {xs : List Operand} (known : f ∈ all)
    (known' : g ∈ all) (accepts : f.accepts k xs = true) (accepts' : g.accepts k xs = true) :
    f = g :=
  List.inj_on_of_nodup_map nodup_shapes known known'
    (((f.accepts_iff k xs).mp accepts).trans ((g.accepts_iff k xs).mp accepts').symm)

/-- A table with the same entries in another order finds the same form. -/
theorem find?_eq_of_perm {table : List Form} (reordered : table.Perm all) (k : String)
    (xs : List Operand) : table.find? (·.accepts k xs) = all.find? (·.accepts k xs) := by
  cases found : all.find? (·.accepts k xs) with
  | none =>
    rw [List.find?_eq_none] at found ⊢
    exact fun f present => found f (reordered.mem_iff.mp present)
  | some f =>
    have known := List.mem_of_find?_eq_some found
    have accepts := List.find?_some found
    obtain ⟨g, found'⟩ : ∃ g, table.find? (·.accepts k xs) = some g :=
      Option.isSome_iff_exists.mp
        (List.find?_isSome.mpr ⟨f, reordered.mem_iff.mpr known, accepts⟩)
    have known' := reordered.mem_iff.mp (List.mem_of_find?_eq_some found')
    have accepts' := List.find?_some found'
    rw [found', eq_of_accepts known' known accepts' accepts]

/-- There is a form under an opcode, for some operands, if its key is in the table. -/
theorem exists_find?_iff (opcode : String) :
    (∃ xs form, find? opcode xs = some form) ↔ key opcode ∈ all.map (·.opcode) := by
  constructor
  · rintro ⟨xs, form, found⟩
    obtain ⟨known, keyed, -⟩ := find?_spec found
    exact List.mem_map.mpr ⟨form, known, keyed⟩
  · intro listed
    obtain ⟨form, known, keyed⟩ := List.mem_map.mp listed
    obtain ⟨xs, accepted⟩ := Slot.exists_acceptAll form.slots
    have accepts : form.accepts (key opcode) xs = true := by simp [Form.accepts, keyed, accepted]
    exact ⟨xs, Option.isSome_iff_exists.mp (List.find?_isSome.mpr ⟨form, known, accepts⟩)⟩

/-- The keywords are the opcodes of the table and the branch mnemonics. -/
theorem isKeyword_iff_key_mem (opcode : String) :
    Keyword.isKeyword opcode = true ↔ key opcode ∈ all.map (·.opcode) := by
  have plain : ∀ k ∈ Keyword.all, Condition.ofMnemonic? k = none → k ∈ all.map (·.opcode) := by
    decide
  have listed : ∀ k ∈ all.map (·.opcode), Keyword.isKeyword k = true := by decide
  have branch : branchKey ∈ all.map (·.opcode) := by decide
  rw [key]
  cases named : Condition.ofMnemonic? opcode with
  | none => exact ⟨fun known => plain opcode (List.contains_iff_mem.mp known) named, listed opcode⟩
  | some c =>
    have known : Keyword.isKeyword opcode = true := by
      rcases Condition.ofMnemonic?_eq_some_iff.mp named with ⟨nonempty, rfl⟩ | ⟨rfl, -⟩
      · exact (Instruction.isKeyword_mnemonic nonempty).1
      · rfl
    exact ⟨fun _ => branch, fun _ => known⟩

/-- Keywords, forms and branch mnemonics agree. A name is a keyword exactly if operands exist with
which it has a form. At most one entry of the table accepts given operands, so that every order of
the table finds the same form. The branch mnemonics are the names of the nonempty conditions, and
`BR`, which stands for all signs. -/
theorem forms_agree_with_keywords (opcode : String) :
    (Keyword.isKeyword opcode = true ↔ ∃ xs form, find? opcode xs = some form) ∧
    (∀ xs, (all.filter (·.accepts (key opcode) xs)).length ≤ 1 ∧
      ∀ table : List Form, table.Perm all →
        table.find? (·.accepts (key opcode) xs) = find? opcode xs) ∧
    ∀ c, Condition.ofMnemonic? opcode = some c ↔
      c.isEmpty = false ∧ opcode = c.mnemonic ∨ opcode = "BR" ∧ c = .always := by
  refine ⟨?_, fun xs => ⟨?_, fun table reordered => ?_⟩, fun c => ?_⟩
  · rw [isKeyword_iff_key_mem, exists_find?_iff]
  · exact length_filter_accepts_le (key opcode) xs
  · exact find?_eq_of_perm reordered (key opcode) xs
  · exact Condition.ofMnemonic?_eq_some_iff

/-- A table in reverse order finds the form of the branches under a mnemonic for two signs. -/
theorem reversed_forms_find_branch :
    all.reverse.Perm all ∧
    all.reverse.find? (·.accepts (key "BRZP") [.label "LOOP"]) =
      some ⟨branchKey, [.offset], .branch⟩ := by
  have reordered : all.reverse.Perm all := List.reverse_perm all
  exact ⟨reordered, ((forms_agree_with_keywords "BRZP").2.1 [.label "LOOP"]).2 _ reordered⟩

end Form

end LC3
