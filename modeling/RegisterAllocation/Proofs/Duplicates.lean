import RegisterAllocation.Code.Duplicates
import RegisterAllocation.Proofs.Alike

/-!
# Groups of duplicates are equivalence classes

Instructions are put into groups one after the other, and each is compared with the first members of
those groups only that are listed under its key. Codes stay as the tables grow
(`CodeTable.extends_code`), and so do keys (`View.key?_mono`). Hence instructions with the same
encoding have the same key, though one of them was coded earlier. Since having the same encoding is
an equivalence, this finds all classes: `Pool.duplicates_are_classes`.
-/

namespace RegisterAllocation

@[simp] theorem DuplicateGroup.first_add (group : DuplicateGroup) (i : InstrId) :
    (group.add i).first = group.first := rfl

@[simp] theorem DuplicateGroup.members_add (group : DuplicateGroup) (i : InstrId) :
    (group.add i).members = group.members ++ [i] := rfl

namespace Pool

variable (pool : Pool) (placement : Placement)

/-- The candidates for sharing among instructions. -/
def shareable (instrs : List InstrId) : List InstrId :=
  instrs.filter fun i => isShareable (pool.instr i)

/-- An instruction that can be compared with others, and that has a key. -/
structure Clear (i : InstrId) : Prop where
  answers : pool.Answers placement i
  known : pool.LiteralsKnown placement i

variable {pool placement} {i j k : InstrId}

/-! ## The relation -/

/-- An instruction whose operands have answers has registers for them. -/
theorem Answers.registered (h : pool.Answers placement i) : pool.Registered placement i := by
  intro v hv
  obtain ⟨operand, hoperand⟩ := h v hv
  rcases operand_eq_ok hoperand with ⟨register, hneeded, hregister, -⟩ | ⟨_, _, hneeded, -⟩
  · exact ⟨true, hneeded, fun _ => ⟨register, hregister⟩⟩
  · exact ⟨false, hneeded, by simp⟩

/-- An instruction that is clear can be compared. -/
theorem Clear.comparable (h : pool.Clear placement i) : pool.Comparable placement i :=
  ⟨h.answers.registered, h.known⟩

theorem Clear.alike_refl (hi : pool.Clear placement i) : pool.Alike placement i i :=
  hi.comparable.alike_refl

theorem Clear.alike_symm (hi : pool.Clear placement i) (hj : pool.Clear placement j)
    (h : pool.Alike placement i j) : pool.Alike placement j i :=
  hi.comparable.alike_symm hj.comparable h

theorem Clear.alike_trans (hi : pool.Clear placement i) (hj : pool.Clear placement j)
    (hk : pool.Clear placement k) (hij : pool.Alike placement i j)
    (hjk : pool.Alike placement j k) : pool.Alike placement i k :=
  hi.comparable.alike_trans hj.comparable hk.comparable hij hjk

/-! ## Keys -/

end Pool

namespace CodeTable

/-- Another table has all the codes of a table. -/
structure Extends (table larger : CodeTable) : Prop where
  get? : ∀ {text : String} {code : Int64}, table.get? text = some code →
    larger.get? text = some code

theorem Extends.refl (table : CodeTable) : table.Extends table := ⟨id⟩

/-- What a table keeps in two steps it keeps. -/
theorem Extends.trans {table larger largest : CodeTable} (h : table.Extends larger)
    (h' : larger.Extends largest) : table.Extends largest := ⟨fun hcode => h'.get? (h.get? hcode)⟩

/-- Codes stay as the table grows. -/
theorem extends_code (table : CodeTable) (text : String) : table.Extends (table.code text).2 := by
  refine ⟨fun {other code} hcode => ?_⟩
  unfold CodeTable.code
  split
  · exact hcode
  · next hnew =>
    rw [Dictionary.get?_set, if_neg, hcode]
    rintro rfl
    rw [hnew] at hcode
    cases hcode

/-- A text has the code that it was given. -/
theorem get?_code (table : CodeTable) (text : String) :
    (table.code text).2.get? text = some (table.code text).1 := by
  unfold CodeTable.code
  split
  · next hcode => exact hcode
  · rw [Dictionary.get?_set, if_pos rfl]

/-- Coding a text keeps all codes and gives it one. -/
theorem code_spec (table : CodeTable) (text : String) :
    ∃ code larger, table.code text = (code, larger) ∧ table.Extends larger ∧
      larger.get? text = some code :=
  ⟨_, _, rfl, table.extends_code text, table.get?_code text⟩

end CodeTable

/-- Other tables have all the codes of tables. -/
structure CodeTables.Extends (tables larger : CodeTables) : Prop where
  operations : tables.operations.Extends larger.operations
  literals : tables.literals.Extends larger.literals

/-- The word for what is seen of a value, if its literal has a code. -/
def OperandView.word? (literals : CodeTable) (seen : MoveType × OperandView) : Option Int64 :=
  match seen.2 with
  | register number => some (seen.1.registerWord number)
  | constant shape => do
    let literal ← shape.literal
    let code ← literals.get? literal.text
    return seen.1.literalWord code

namespace View

/-- The word for what is seen of an output. -/
def outWord? (literals : CodeTable) : Option (MoveType × OperandView) → Option Int64
  | none => some 0
  | some seen => OperandView.word? literals seen

/-- The word for the literal of an instruction, if it has a code. -/
def literalWord? (literals : CodeTable) : Option Literal → Option Int64
  | none => some 0
  | some literal => (literals.get? literal.text).map (· + 1)

/-- The key of an instruction of which this is seen, if its texts have codes. -/
def key? (tables : CodeTables) (view : View) : Option (List Int64) := do
  let operation ← tables.operations.get? (view.shape.opcodeName ++ "/" ++ view.shape.method)
  let literal ← literalWord? tables.literals view.shape.literal
  let out ← outWord? tables.literals view.out
  let inputs ← view.inputs.mapM (OperandView.word? tables.literals)
  return Pool.packedKey operation literal out inputs

end View

section Growing

variable {literals larger : CodeTable} {word : Int64}

/-- The word of an operand stays as the table grows. -/
theorem OperandView.word?_mono (h : literals.Extends larger) {seen : MoveType × OperandView}
    (hword : OperandView.word? literals seen = some word) :
    OperandView.word? larger seen = some word := by
  unfold OperandView.word? at hword ⊢
  split at hword
  · next hseen => exact hword
  · next shape hseen =>
    obtain ⟨literal, hliteral, hword⟩ := Option.bind_eq_some_iff.mp hword
    obtain ⟨code, hcode, hword⟩ := Option.bind_eq_some_iff.mp hword
    simp only [hliteral, h.get? hcode, Option.bind_eq_bind, Option.bind_some]
    exact hword

/-- The words of operands stay as the table grows. -/
theorem OperandView.words?_mono (h : literals.Extends larger) {seen : List (MoveType × OperandView)}
    {words : List Int64} (hwords : seen.mapM (OperandView.word? literals) = some words) :
    seen.mapM (OperandView.word? larger) = some words := by
  induction seen generalizing words with
  | nil => exact hwords
  | cons first seen ih =>
    rw [List.mapM_cons] at hwords ⊢
    obtain ⟨word, hword, hwords⟩ := Option.bind_eq_some_iff.mp hwords
    obtain ⟨others, hothers, hwords⟩ := Option.bind_eq_some_iff.mp hwords
    simp only [word?_mono h hword, ih hothers, Option.bind_eq_bind, Option.bind_some]
    exact hwords

/-- The word of an output stays as the table grows. -/
theorem View.outWord?_mono (h : literals.Extends larger) {seen : Option (MoveType × OperandView)}
    (hword : outWord? literals seen = some word) : outWord? larger seen = some word := by
  cases seen with
  | none => exact hword
  | some seen => exact OperandView.word?_mono h hword

/-- The word of a literal stays as the table grows. -/
theorem View.literalWord?_mono (h : literals.Extends larger) {literal : Option Literal}
    (hword : literalWord? literals literal = some word) :
    literalWord? larger literal = some word := by
  cases literal with
  | none => exact hword
  | some literal =>
    obtain ⟨code, hcode, rfl⟩ := Option.map_eq_some_iff.mp hword
    exact Option.map_eq_some_iff.mpr ⟨code, h.get? hcode, rfl⟩

/-- Keys stay as the tables grow. -/
theorem View.key?_mono {tables larger : CodeTables} (h : tables.Extends larger) {view : View}
    {key : List Int64} (hkey : view.key? tables = some key) : view.key? larger = some key := by
  obtain ⟨operation, hoperation, hkey⟩ := Option.bind_eq_some_iff.mp hkey
  obtain ⟨literal, hliteral, hkey⟩ := Option.bind_eq_some_iff.mp hkey
  obtain ⟨out, hout, hkey⟩ := Option.bind_eq_some_iff.mp hkey
  obtain ⟨inputs, hinputs, hkey⟩ := Option.bind_eq_some_iff.mp hkey
  simp only [View.key?, h.operations.get? hoperation, literalWord?_mono h.literals hliteral,
    outWord?_mono h.literals hout, OperandView.words?_mono h.literals hinputs, Option.bind_eq_bind,
    Option.bind_some]
  exact hkey

end Growing

namespace Pool

variable {pool : Pool} {placement : Placement} {i j k : InstrId}

/-- A value has the word for what is seen of it. -/
theorem encodeValue_spec {number : Int64} {v : ValueId} {seen : MoveType × OperandView}
    (hseen : pool.operandView placement number v = .ok seen)
    (hanswers : ∃ operand, pool.operand placement number v = .ok operand) (literals : CodeTable) :
    ∃ word larger, pool.encodeValue placement number literals v = .ok (word, larger) ∧
      literals.Extends larger ∧ OperandView.word? larger seen = some word := by
  obtain ⟨operand, hoperand⟩ := hanswers
  have hsame := (operand_of_operandView hseen).symm.trans hoperand
  simp only [encodeValue, hoperand]
  rcases operandView_eq_ok hseen with ⟨register, -, -, rfl⟩ | ⟨i, -, -, rfl⟩
  · cases hsame
    exact ⟨_, _, rfl, .refl literals, rfl⟩
  · cases hliteral : (pool.instr i).shape.literal with
    | none =>
      rw [OperandView.operand, hliteral] at hsame
      cases hsame
    | some literal =>
      rw [OperandView.operand, hliteral] at hsame
      cases hsame
      refine ⟨_, _, rfl, CodeTable.extends_code literals literal.text, ?_⟩
      simp [OperandView.word?, hliteral, CodeTable.get?_code]

/-- Values have the words for what is seen of them. -/
theorem encodeValues_spec {number : Int64} {vs : List ValueId}
    {seen : List (MoveType × OperandView)}
    (hseen : vs.mapM (pool.operandView placement number) = .ok seen)
    (hanswers : ∀ v ∈ vs, ∃ operand, pool.operand placement number v = .ok operand)
    (literals : CodeTable) :
    ∃ words larger, pool.encodeValues placement number literals vs = .ok (words, larger) ∧
      literals.Extends larger ∧ seen.mapM (OperandView.word? larger) = some words := by
  induction vs generalizing seen literals with
  | nil =>
    cases hseen
    exact ⟨[], literals, rfl, .refl literals, rfl⟩
  | cons v vs ih =>
    obtain ⟨first, rest, hfirst, hrest, rfl⟩ := mapM_cons_eq_ok hseen
    obtain ⟨hv, hvs⟩ := List.forall_mem_cons.mp hanswers
    obtain ⟨word, middle, hencode, hmiddle, hword⟩ := encodeValue_spec hfirst hv literals
    obtain ⟨words, larger, hencodes, hlarger, hwords⟩ := ih hrest hvs middle
    refine ⟨word :: words, larger, ?_, hmiddle.trans hlarger, ?_⟩
    · simp [encodeValues, hencode, hencodes, bind, Except.bind, pure, Except.pure]
    · simp [OperandView.word?_mono hlarger hword, hwords]

/-- The output is encoded by the word of what is seen of it. -/
theorem encodeOut_spec {number : Int64} {out : Option ValueId}
    {seen : Option (MoveType × OperandView)}
    (hseen : out.mapM (pool.operandView placement number) = .ok seen)
    (hanswers : ∀ v ∈ out, ∃ operand, pool.operand placement number v = .ok operand)
    (literals : CodeTable) :
    ∃ word larger, pool.encodeOut placement number literals out = .ok (word, larger) ∧
      literals.Extends larger ∧ View.outWord? larger seen = some word := by
  cases out with
  | none =>
    cases hseen
    exact ⟨0, literals, rfl, .refl literals, rfl⟩
  | some v =>
    obtain ⟨first, hfirst, rfl⟩ := map_eq_ok hseen
    exact encodeValue_spec hfirst (hanswers v rfl) literals

/-- A literal is encoded by its word. -/
theorem encodeLiteral_spec (literals : CodeTable) (literal : Option Literal) :
    ∃ word larger, encodeLiteral literals literal = (word, larger) ∧ literals.Extends larger ∧
      View.literalWord? larger literal = some word := by
  cases literal with
  | none => exact ⟨0, literals, rfl, .refl literals, rfl⟩
  | some literal =>
    refine ⟨_, _, rfl, CodeTable.extends_code literals literal.text, ?_⟩
    exact Option.map_eq_some_iff.mpr ⟨_, CodeTable.get?_code literals literal.text, rfl⟩

/-- An instruction has the key of its view, in tables that have grown. -/
theorem duplicateKey_spec {view : View} (hview : pool.view placement i = .ok view)
    (hanswers : pool.Answers placement i) (tables : CodeTables) :
    ∃ key larger, pool.duplicateKey placement tables i = .ok (key, larger) ∧
      tables.Extends larger ∧ view.key? larger = some key := by
  obtain ⟨hshape, hout, hinputs⟩ := view_eq_ok hview
  obtain ⟨houtAnswers, hinputAnswers⟩ := List.forall_mem_append.mp hanswers
  obtain ⟨operation, operations, hcode, hoperations, hoperation⟩ :=
    tables.operations.code_spec ((pool.instr i).opcodeName ++ "/" ++ (pool.instr i).method)
  obtain ⟨literal, first, hencodeLiteral, hfirst, hliteral⟩ :=
    encodeLiteral_spec tables.literals (pool.instr i).literal
  obtain ⟨out, second, hencodeOut, hsecond, hout⟩ :=
    encodeOut_spec hout (by simpa using houtAnswers) first
  obtain ⟨inputs, larger, hencodeValues, hlarger, hinputs⟩ :=
    encodeValues_spec hinputs hinputAnswers second
  refine ⟨packedKey operation literal out inputs, ⟨operations, larger⟩, ?_,
    ⟨hoperations, hfirst.trans (hsecond.trans hlarger)⟩, ?_⟩
  · simp [duplicateKey, hcode, hencodeLiteral, hencodeOut, hencodeValues, bind, Except.bind, pure,
      Except.pure]
  · have hname : view.shape.opcodeName ++ "/" ++ view.shape.method =
        (pool.instr i).opcodeName ++ "/" ++ (pool.instr i).method := by
      rw [hshape]
      rfl
    have hliteral : View.literalWord? larger view.shape.literal = some literal := by
      rw [hshape]
      exact View.literalWord?_mono (hsecond.trans hlarger) hliteral
    simp [View.key?, hname, hoperation, hliteral, View.outWord?_mono hlarger hout, hinputs]

/-- An instruction that has a key has operands for all its values. -/
theorem answers_of_duplicateKey {tables : CodeTables} {result : List Int64 × CodeTables}
    (h : pool.duplicateKey placement tables i = .ok result) : pool.Answers placement i := by
  have hvalue : ∀ {number : Int64} {literals : CodeTable} {v : ValueId}
      {result : Int64 × CodeTable}, pool.encodeValue placement number literals v = .ok result →
      ∃ operand, pool.operand placement number v = .ok operand :=
    fun h => (bind_eq_ok h).imp fun _ h => h.1
  have hvalues : ∀ {number : Int64} {vs : List ValueId} {literals : CodeTable}
      {result : List Int64 × CodeTable},
      pool.encodeValues placement number literals vs = .ok result →
      ∀ v ∈ vs, ∃ operand, pool.operand placement number v = .ok operand := by
    intro number vs
    induction vs with
    | nil => simp
    | cons v vs ih =>
      intro literals result h
      obtain ⟨_, hfirst, h⟩ := bind_eq_ok h
      obtain ⟨_, hrest, -⟩ := bind_eq_ok h
      exact List.forall_mem_cons.mpr ⟨hvalue hfirst, ih hrest⟩
  obtain ⟨_, hout, h⟩ := bind_eq_ok h
  obtain ⟨_, hinputs, -⟩ := bind_eq_ok h
  refine List.forall_mem_append.mpr ⟨fun v hv => ?_, hvalues hinputs⟩
  rw [Option.mem_toList] at hv
  rw [hv] at hout
  exact hvalue hout

/-! ## Groups -/

variable (pool placement) in
/-- The groups after the candidates `done`: they are the classes of these, in the order of their
first members. -/
structure Grouped (done : List InstrId) (groups : List DuplicateGroup) : Prop where
  clear : ∀ i ∈ done, pool.Clear placement i
  members : ∀ group ∈ groups, group.members = done.filter (pool.Alike placement group.first)
  covers : ∀ i ∈ done, ∃ group ∈ groups, pool.Alike placement group.first i
  apart : (groups.map (·.first)).Pairwise fun i j => ¬pool.Alike placement i j
  ordered : (groups.map (·.first)).Pairwise fun i j => done.idxOf i < done.idxOf j

namespace Grouped

variable {done : List InstrId} {groups : List DuplicateGroup}

theorem empty : Grouped pool placement [] [] where
  clear := by simp
  members := by simp
  covers := by simp
  apart := .nil
  ordered := .nil

/-- The first member of a group has been met. -/
theorem first_mem (h : Grouped pool placement done groups) {group : DuplicateGroup}
    (hgroup : group ∈ groups) : group.first ∈ done := by
  have hfirst : group.first ∈ group.members := List.mem_cons_self
  rw [h.members group hgroup] at hfirst
  exact List.mem_of_mem_filter hfirst

theorem clear_first (h : Grouped pool placement done groups) {group : DuplicateGroup}
    (hgroup : group ∈ groups) : pool.Clear placement group.first :=
  h.clear _ (h.first_mem hgroup)

/-- A candidate that is like no first member is like none of the candidates before it. -/
theorem not_alike (h : Grouped pool placement done groups) (hi : pool.Clear placement i)
    (hnone : ∀ group ∈ groups, ¬pool.Alike placement group.first i) :
    ∀ j ∈ done, ¬pool.Alike placement i j := by
  intro j hj hij
  obtain ⟨group, hgroup, hgj⟩ := h.covers j hj
  have hclear := h.clear j hj
  exact hnone group hgroup
    ((h.clear_first hgroup).alike_trans hclear hi hgj (hi.alike_symm hclear hij))

/-- One more clear instruction leaves all of them clear. -/
theorem clear_append (h : Grouped pool placement done groups) (hi : pool.Clear placement i) :
    ∀ j ∈ done ++ [i], pool.Clear placement j :=
  List.forall_mem_append.mpr ⟨h.clear, by simpa using hi⟩

/-- The order of the first members stays when there are more candidates. -/
theorem ordered_append (h : Grouped pool placement done groups) (i : InstrId) :
    (groups.map (·.first)).Pairwise fun j k => (done ++ [i]).idxOf j < (done ++ [i]).idxOf k := by
  have hmem : ∀ j ∈ groups.map (·.first), j ∈ done := by
    simpa using fun group hgroup => h.first_mem hgroup
  refine h.ordered.imp_of_mem fun hj hk hlt => ?_
  rwa [List.idxOf_append_of_mem (hmem _ hj), List.idxOf_append_of_mem (hmem _ hk)]

/-- A candidate that is like no first member starts a class of its own. -/
theorem start (h : Grouped pool placement done groups) (hi : pool.Clear placement i)
    (hnone : ∀ group ∈ groups, ¬pool.Alike placement group.first i) :
    Grouped pool placement (done ++ [i]) (groups ++ [{ first := i }]) where
  clear := h.clear_append hi
  members := by
    refine List.forall_mem_append.mpr ⟨fun group hgroup => ?_, ?_⟩
    · simp [h.members group hgroup, hnone group hgroup]
    · have hfilter : done.filter (pool.Alike placement i) = [] :=
        List.filter_eq_nil_iff.mpr (by simpa using h.not_alike hi hnone)
      simp [DuplicateGroup.members, hfilter, hi.alike_refl]
  covers := by
    refine List.forall_mem_append.mpr ⟨fun j hj => ?_, ?_⟩
    · obtain ⟨group, hgroup, hgj⟩ := h.covers j hj
      exact ⟨group, List.mem_append_left _ hgroup, hgj⟩
    · simpa using .inr hi.alike_refl
  apart := by
    rw [List.map_append, List.pairwise_append]
    exact ⟨h.apart, by simp, by simpa using hnone⟩
  ordered := by
    rw [List.map_append, List.pairwise_append]
    refine ⟨h.ordered_append i, by simp, ?_⟩
    have hnew : i ∉ done := fun hmem => h.not_alike hi hnone i hmem hi.alike_refl
    have hlt : ∀ group ∈ groups, (done ++ [i]).idxOf group.first < done.length :=
      fun group hgroup => by
        rw [List.idxOf_append_of_mem (h.first_mem hgroup)]
        exact List.idxOf_lt_length_of_mem (h.first_mem hgroup)
    simpa [List.idxOf_append_of_notMem hnew] using hlt

/-- A candidate that is like a first member is like no other one. -/
theorem not_alike_others {before after : List DuplicateGroup} {group : DuplicateGroup}
    (h : Grouped pool placement done (before ++ group :: after)) (hi : pool.Clear placement i)
    (halike : pool.Alike placement group.first i) :
    ∀ other ∈ before ++ after, ¬pool.Alike placement other.first i := by
  intro other hother halikeOther
  have hgroup : pool.Clear placement group.first := h.clear_first (by simp)
  have hclear : pool.Clear placement other.first := h.clear_first (by simp at hother ⊢; tauto)
  have happart := h.apart
  simp only [List.map_append, List.map_cons, List.pairwise_append, List.pairwise_cons,
    List.mem_map, List.mem_cons] at happart
  obtain ⟨-, ⟨hafter, -⟩, hbefore⟩ := happart
  rcases List.mem_append.mp hother with hmem | hmem
  · exact hbefore _ ⟨other, hmem, rfl⟩ _ (.inl rfl)
      (hclear.alike_trans hi hgroup halikeOther (hgroup.alike_symm hi halike))
  · exact hafter _ ⟨other, hmem, rfl⟩
      (hgroup.alike_trans hi hclear halike (hclear.alike_symm hi halikeOther))

/-- A candidate that is like a first member belongs to the class of that one only. -/
theorem join {before after : List DuplicateGroup} {group : DuplicateGroup}
    (h : Grouped pool placement done (before ++ group :: after)) (hi : pool.Clear placement i)
    (halike : pool.Alike placement group.first i) :
    Grouped pool placement (done ++ [i]) (before ++ group.add i :: after) where
  clear := h.clear_append hi
  members := by
    have hmembers := h.members
    have hothers := h.not_alike_others hi halike
    simp only [List.forall_mem_append, List.forall_mem_cons] at hmembers hothers ⊢
    obtain ⟨hbefore, hgroup, hafter⟩ := hmembers
    refine ⟨fun other hmem => ?_, ?_, fun other hmem => ?_⟩
    · simp [hbefore other hmem, hothers.1 other hmem]
    · rw [DuplicateGroup.members_add, DuplicateGroup.first_add, hgroup]
      simp [halike]
    · simp [hafter other hmem, hothers.2 other hmem]
  covers := by
    refine List.forall_mem_append.mpr ⟨fun j hj => ?_, ?_⟩
    · obtain ⟨found, hfound, hfj⟩ := h.covers j hj
      simp only [List.mem_append, List.mem_cons] at hfound ⊢
      rcases hfound with hmem | rfl | hmem
      · exact ⟨found, .inl hmem, hfj⟩
      · exact ⟨_, .inr (.inl rfl), hfj⟩
      · exact ⟨found, .inr (.inr hmem), hfj⟩
    · simpa using ⟨_, .inr (.inl rfl), halike⟩
  apart := by simpa using h.apart
  ordered := by simpa using h.ordered_append i

end Grouped

/-! ## Searching -/

variable (pool placement) in
/-- The groups of a search are found again: each one at a place that is listed under the key of its
first member. -/
structure Indexed (search : DuplicateSearch) : Prop where
  listed : ∀ {place : Nat} {group : DuplicateGroup}, search.groups[place]? = some group →
    ∃ view key places, pool.view placement group.first = .ok view ∧
      view.key? search.tables = some key ∧ search.places.get? key = some places ∧ place ∈ places
  inside : ∀ {key : List Int64} {places : List Nat}, search.places.get? key = some places →
    ∀ place ∈ places, place < search.groups.length

/-- Of the groups at the given places, the first one with a first member that is like the
instruction is found. -/
theorem findGroup_spec {groups : List DuplicateGroup} {places : List Nat}
    (hi : pool.Clear placement i) (hgroups : ∀ group ∈ groups, pool.Clear placement group.first)
    (hplaces : ∀ place ∈ places, place < groups.length) :
    (∃ place ∈ places, ∃ group, groups[place]? = some group ∧
      pool.Alike placement group.first i ∧
      pool.findGroup placement groups i places = .ok (some place)) ∨
    (∀ place ∈ places, ∀ group ∈ groups[place]?, ¬pool.Alike placement group.first i) ∧
      pool.findGroup placement groups i places = .ok none := by
  induction places with
  | nil => exact .inr ⟨by simp, rfl⟩
  | cons place places ih =>
    obtain ⟨hplace, hplaces⟩ := List.forall_mem_cons.mp hplaces
    have hgroup := List.getElem?_eq_getElem hplace
    have hclear := hgroups _ (List.getElem_mem hplace)
    have hsame := hclear.comparable.sameEncoding_eq hi.comparable
    by_cases halike : pool.Alike placement groups[place].first i
    · refine .inl ⟨place, List.mem_cons_self, _, hgroup, halike, ?_⟩
      have hsame : pool.sameEncoding placement groups[place].first i = .ok true := halike
      simp only [findGroup, hgroup, hsame]
      rfl
    · have hpass : pool.findGroup placement groups i (place :: places) =
          pool.findGroup placement groups i places := by
        rw [hclear.comparable.alike_iff hi.comparable] at halike
        rw [decide_eq_false halike] at hsame
        simp only [findGroup, hgroup, hsame]
        rfl
      rw [hpass]
      rcases ih hplaces with ⟨found, hmem, hfound⟩ | ⟨hnone, hfound⟩
      · exact .inl ⟨found, List.mem_cons_of_mem _ hmem, hfound⟩
      · refine .inr ⟨List.forall_mem_cons.mpr ⟨?_, hnone⟩, hfound⟩
        simpa [hgroup] using halike

namespace Indexed

variable {search : DuplicateSearch} {tables : CodeTables} {view : View} {key : List Int64}

theorem empty : Indexed pool placement {} where
  listed := by simp
  inside := by simp

/-- A group with a first member that is like the instruction is listed under its key. -/
theorem mem_places (h : Indexed pool placement search) (hview : pool.view placement i = .ok view)
    (htables : search.tables.Extends tables) (hkey : view.key? tables = some key) {place : Nat}
    {group : DuplicateGroup} (hgroup : search.groups[place]? = some group)
    (hsame : pool.view placement group.first = pool.view placement i) :
    place ∈ (search.places.get? key).getD [] := by
  obtain ⟨view', key', places, hview', hkey', hplaces, hmem⟩ := h.listed hgroup
  obtain rfl : view' = view := Except.ok.inj (hview'.symm.trans (hsame.trans hview))
  obtain rfl : key' = key := Option.some.inj ((View.key?_mono htables hkey').symm.trans hkey)
  rwa [hplaces]

/-- Groups that have more members, and tables that have more codes, are found as before. -/
theorem join (h : Indexed pool placement search) (htables : search.tables.Extends tables)
    (place : Nat) (i : InstrId) :
    Indexed pool placement
      { search with tables, groups := search.groups.modify place (·.add i) } where
  listed {other group} hgroup := by
    rw [List.getElem?_modify] at hgroup
    obtain ⟨before, hbefore, rfl⟩ := Option.map_eq_some_iff.mp hgroup
    obtain ⟨view, key, places, hview, hkey, hplaces⟩ := h.listed hbefore
    refine ⟨view, key, places, ?_, View.key?_mono htables hkey, hplaces⟩
    split <;> exact hview
  inside hplaces := by
    rw [List.length_modify]
    exact h.inside hplaces

/-- A new group at the end is listed under the key of its first member. -/
theorem start (h : Indexed pool placement search) (hview : pool.view placement i = .ok view)
    (htables : search.tables.Extends tables) (hkey : view.key? tables = some key) :
    Indexed pool placement {
      tables
      places := search.places.set key
        ((search.places.get? key).getD [] ++ [search.groups.length])
      groups := search.groups ++ [{ first := i }] } where
  listed {place group} hgroup := by
    rw [List.getElem?_append] at hgroup
    split at hgroup
    · obtain ⟨view', key', places, hview', hkey', hplaces, hmem⟩ := h.listed hgroup
      refine ⟨view', key', if key = key' then places ++ [search.groups.length] else places, hview',
        View.key?_mono htables hkey', ?_, ?_⟩
      · by_cases hsame : key = key' <;> simp [hsame, hplaces]
      · split
        · exact List.mem_append_left _ hmem
        · exact hmem
    · next hplace =>
      obtain ⟨hlength, rfl⟩ : place - search.groups.length = 0 ∧ { first := i } = group := by
        simpa [List.getElem?_singleton] using hgroup
      obtain rfl : place = search.groups.length := by omega
      exact ⟨view, key, _, hview, hkey, (Dictionary.get?_set _ _ _ _).trans (if_pos rfl),
        List.mem_append_right _ List.mem_cons_self⟩
  inside {key' places} hplaces place hmem := by
    rw [List.length_append, List.length_singleton]
    rw [Dictionary.get?_set] at hplaces
    split at hplaces
    · cases hplaces
      rcases List.mem_append.mp hmem with hmem | hmem
      · cases hbefore : search.places.get? key with
        | none => simp [hbefore] at hmem
        | some places =>
          rw [hbefore] at hmem
          exact Nat.lt_succ_of_lt (h.inside hbefore place hmem)
      · simp_all
    · exact Nat.lt_succ_of_lt (h.inside hplaces place hmem)

end Indexed

namespace Grouped

variable {done : List InstrId} {search : DuplicateSearch}

/-- Adding a candidate keeps the groups right. -/
theorem exists_add (h : Grouped pool placement done search.groups)
    (hindexed : Indexed pool placement search) (hi : pool.Clear placement i) :
    ∃ added, pool.addDuplicate placement search i = .ok added ∧
      Grouped pool placement (done ++ [i]) added.groups ∧ Indexed pool placement added := by
  obtain ⟨view, hview⟩ := hi.answers.registered.exists_view
  obtain ⟨key, tables, hduplicateKey, htables, hkey⟩ :=
    duplicateKey_spec hview hi.answers search.tables
  have hinside : ∀ place ∈ (search.places.get? key).getD [], place < search.groups.length := by
    cases hplaces : search.places.get? key with
    | none => simp
    | some places => exact hindexed.inside hplaces
  rcases findGroup_spec hi (fun _ => h.clear_first) hinside with
    ⟨place, -, group, hgroup, halike, hfound⟩ | ⟨hnone, hfound⟩
  · have hadd : pool.addDuplicate placement search i =
        .ok { search with tables, groups := search.groups.modify place (·.add i) } := by
      simp [addDuplicate, hduplicateKey, hfound, bind, Except.bind, pure, Except.pure]
    refine ⟨_, hadd, ?_, hindexed.join htables place i⟩
    obtain ⟨hplace, rfl⟩ := List.getElem?_eq_some_iff.mp hgroup
    have hgroups : search.groups = search.groups.take place ++
        search.groups[place] :: search.groups.drop (place + 1) := by simp
    rw [hgroups] at h
    simpa only [List.modify_eq_take_cons_drop hplace] using h.join hi halike
  · refine ⟨_, ?_, h.start hi ?_, hindexed.start hview htables hkey⟩
    · simp [addDuplicate, hduplicateKey, hfound, bind, Except.bind, pure, Except.pure]
    intro group hgroup halike
    obtain ⟨place, hplace⟩ := List.getElem?_of_mem hgroup
    have hsame := ((h.clear_first hgroup).comparable.alike_iff hi.comparable).mp halike
    exact hnone place (hindexed.mem_places hview htables hkey hplace hsame) group hplace halike

/-- Going through a list of instructions keeps the groups right. -/
theorem exists_addAll (h : Grouped pool placement done search.groups)
    (hindexed : Indexed pool placement search) {instrs : List InstrId}
    (hinstrs : ∀ i ∈ pool.shareable instrs, pool.Clear placement i) :
    ∃ added, pool.addDuplicates placement search instrs = .ok added ∧
      Grouped pool placement (done ++ pool.shareable instrs) added.groups := by
  induction instrs generalizing done search with
  | nil => exact ⟨search, rfl, by simpa [shareable] using h⟩
  | cons i instrs ih =>
    by_cases hshareable : isShareable (pool.instr i) = true
    · have hcons : pool.shareable (i :: instrs) = i :: pool.shareable instrs := by
        simp [shareable, hshareable]
      rw [hcons] at hinstrs ⊢
      obtain ⟨hi, hinstrs⟩ := List.forall_mem_cons.mp hinstrs
      obtain ⟨added, hadd, hadded, hindexed⟩ := h.exists_add hindexed hi
      obtain ⟨result, hresult, hgrouped⟩ := ih hadded hindexed hinstrs
      refine ⟨result, ?_, by simpa using hgrouped⟩
      rw [addDuplicates, if_pos hshareable, hadd]
      exact hresult
    · have hcons : pool.shareable (i :: instrs) = pool.shareable instrs := by
        simp [shareable, hshareable]
      rw [hcons] at hinstrs ⊢
      obtain ⟨result, hresult, hgrouped⟩ := ih h hindexed hinstrs
      refine ⟨result, ?_, hgrouped⟩
      simpa [addDuplicates, hshareable] using hresult

end Grouped

/-- Every candidate is asked for its operands. -/
theorem answers_of_addDuplicates {search result : DuplicateSearch} {instrs : List InstrId}
    (h : pool.addDuplicates placement search instrs = .ok result) :
    ∀ i ∈ pool.shareable instrs, pool.Answers placement i := by
  induction instrs generalizing search with
  | nil => simp [shareable]
  | cons i instrs ih =>
    rw [addDuplicates] at h
    split at h
    · next hshareable =>
      obtain ⟨added, hadd, h⟩ := bind_eq_ok h
      obtain ⟨keyed, hkey, -⟩ := bind_eq_ok hadd
      have hcons : pool.shareable (i :: instrs) = i :: pool.shareable instrs := by
        simp [shareable, hshareable]
      rw [hcons]
      exact List.forall_mem_cons.mpr ⟨answers_of_duplicateKey hkey, ih h⟩
    · next hshareable => simpa [shareable, hshareable] using ih h

/-! ## Classes -/

/-- The classes of two or more members of the relation `alike` on a list. -/
structure IsClasses (alike : InstrId → InstrId → Prop) [DecidableRel alike]
    (candidates : List InstrId) (groups : List (List InstrId)) : Prop where
  /-- The groups are the classes, each with its members in the order of the list. -/
  mem_iff : ∀ group, group ∈ groups ↔
    2 ≤ group.length ∧ ∃ i ∈ candidates, group = candidates.filter (alike i)
  /-- A candidate with a class of two or more members is in one group only. -/
  unique : ∀ i ∈ candidates, 2 ≤ (candidates.filter (alike i)).length →
    ∃! group, group ∈ groups ∧ i ∈ group
  /-- The groups are in the order of their first members. -/
  ordered : groups.Pairwise fun left right =>
    ∀ i ∈ left.head?, ∀ j ∈ right.head?, candidates.idxOf i < candidates.idxOf j

/-- Among clear instructions, being alike is an equivalence, and the comparison answers. -/
theorem alikeEquivalence_of_clear {candidates : List InstrId}
    (h : ∀ i ∈ candidates, pool.Clear placement i) : AlikeEquivalence pool placement candidates :=
  alikeEquivalence_of_comparable fun i hi => (h i hi).comparable

namespace Grouped

variable {done : List InstrId} {groups : List DuplicateGroup}

/-- Candidates with the same encoding have the same class. -/
theorem filter_alike_eq (h : Grouped pool placement done groups) (hi : i ∈ done) (hj : j ∈ done)
    (halike : pool.Alike placement i j) :
    done.filter (pool.Alike placement i) = done.filter (pool.Alike placement j) := by
  have hi := h.clear i hi
  have hj := h.clear j hj
  refine List.filter_congr fun k hk => decide_eq_decide.mpr ⟨fun hik => ?_, fun hjk => ?_⟩
  · exact hj.alike_trans hi (h.clear k hk) (hi.alike_symm hj halike) hik
  · exact hi.alike_trans hj (h.clear k hk) halike hjk

/-- A group is the class of each of its members. -/
theorem members_eq (h : Grouped pool placement done groups) {group : DuplicateGroup}
    (hgroup : group ∈ groups) (hi : i ∈ group.members) :
    group.members = done.filter (pool.Alike placement i) := by
  rw [h.members group hgroup] at hi ⊢
  obtain ⟨hi, halike⟩ := List.mem_filter.mp hi
  exact h.filter_alike_eq (h.first_mem hgroup) hi (by simpa using halike)

/-- Every candidate is in a group. -/
theorem exists_group (h : Grouped pool placement done groups) (hi : i ∈ done) :
    ∃ group ∈ groups, i ∈ group.members := by
  obtain ⟨group, hgroup, halike⟩ := h.covers i hi
  refine ⟨group, hgroup, ?_⟩
  rw [h.members group hgroup]
  exact List.mem_filter.mpr ⟨hi, by simpa using halike⟩

/-- Groups of one instruction are left out. -/
theorem two_le_length_members {group : DuplicateGroup} :
    2 ≤ group.members.length ↔ (!group.others.isEmpty) = true := by
  cases hothers : group.others <;> simp [DuplicateGroup.members, hothers]

/-- The groups with more than one member are the classes of instructions that are alike. -/
theorem isClasses (h : Grouped pool placement done groups) :
    IsClasses (pool.Alike placement) done
      ((groups.filter (!·.others.isEmpty)).map (·.members)) where
  mem_iff := fun members => by
    simp only [List.mem_map, List.mem_filter, ← two_le_length_members]
    constructor
    · rintro ⟨group, ⟨hgroup, hlength⟩, rfl⟩
      exact ⟨hlength, group.first, h.first_mem hgroup, h.members group hgroup⟩
    · rintro ⟨hlength, i, hi, rfl⟩
      obtain ⟨group, hgroup, hmem⟩ := h.exists_group hi
      have hmembers := h.members_eq hgroup hmem
      exact ⟨group, ⟨hgroup, by rwa [hmembers]⟩, hmembers⟩
  unique := fun i hi hlength => by
    simp only [List.mem_map, List.mem_filter, ← two_le_length_members]
    obtain ⟨group, hgroup, hmem⟩ := h.exists_group hi
    have hmembers := h.members_eq hgroup hmem
    refine ⟨group.members, ⟨⟨group, ⟨hgroup, by rwa [hmembers]⟩, rfl⟩, hmem⟩, ?_⟩
    rintro _ ⟨⟨other, ⟨hother, -⟩, rfl⟩, hmem'⟩
    rw [h.members_eq hother hmem', hmembers]
  ordered := by
    have hordered := h.ordered
    rw [List.pairwise_map] at hordered ⊢
    exact (hordered.filter _).imp fun hlt => by simpa [DuplicateGroup.members] using hlt

end Grouped

/-- **The groups of duplicates are the classes of instructions with the same encoding.** Let the
literals be known in all candidates, the instructions without side effects and with at most three
inputs. The groups are found if and only if every value of a candidate has an operand. Then having
the same encoding is an equivalence on the candidates, and the groups are its classes of two or
more members, in the order of their first members. -/
theorem duplicates_are_classes (pool : Pool) (placement : Placement) (instrs : List InstrId)
    (hknown : ∀ i ∈ pool.shareable instrs, pool.LiteralsKnown placement i) :
    ((∃ groups, pool.duplicates placement instrs = .ok groups) ↔
      ∀ i ∈ pool.shareable instrs, pool.Answers placement i) ∧
    ∀ groups, pool.duplicates placement instrs = .ok groups →
      AlikeEquivalence pool placement (pool.shareable instrs) ∧
      IsClasses (pool.Alike placement) (pool.shareable instrs) groups := by
  have hanswers : ∀ groups, pool.duplicates placement instrs = .ok groups →
      ∀ i ∈ pool.shareable instrs, pool.Answers placement i := fun groups h => by
    obtain ⟨added, hadded, -⟩ := bind_eq_ok h
    exact answers_of_addDuplicates hadded
  have hgrouped : (∀ i ∈ pool.shareable instrs, pool.Answers placement i) →
      ∃ added, pool.addDuplicates placement {} instrs = .ok added ∧
        Grouped pool placement (pool.shareable instrs) added.groups := fun h => by
    simpa using Grouped.empty.exists_addAll .empty fun i hi => ⟨h i hi, hknown i hi⟩
  refine ⟨⟨fun ⟨groups, h⟩ => hanswers groups h, fun h => ?_⟩, fun groups h => ?_⟩
  · obtain ⟨added, hadded, -⟩ := hgrouped h
    exact ⟨_, by rw [duplicates, hadded]; rfl⟩
  · obtain ⟨added, hadded, hclasses⟩ := hgrouped (hanswers groups h)
    obtain rfl : (added.groups.filter (!·.others.isEmpty)).map (·.members) = groups := by
      rw [duplicates, hadded] at h
      exact Except.ok.inj h
    exact ⟨alikeEquivalence_of_clear hclasses.clear, hclasses.isClasses⟩

/-- Integers and real numbers with the same text, a call between them, and a copy. -/
def mixedConstants : Pool where
  values := #[
    { number := 0, name := "a", type := .single }, { number := 1, name := "b", type := .single }]
  instrs := #[
    { number := 1, opcode := .const, literal := some (.int 1) },
    { number := 2, opcode := .const, literal := some (.ratio 1 1) },
    { number := 3, opcode := .invoke, method := "f" },
    { number := 4, opcode := .const, literal := some (.ratio 1 1) },
    { number := 5, opcode := .const, literal := some (.int 1) },
    { number := 6, opcode := .move, out := some 1, inputs := [0] }]

/-- The numbers `1` and `1.0` have the same key, but are told apart. -/
theorem duplicates_are_classes_mixed :
    mixedConstants.duplicates (fun v _ => .ok v.toInt64) [0, 1, 2, 3, 4, 5] =
      .ok [[0, 4], [1, 3]] ∧
    IsClasses (mixedConstants.Alike fun v _ => .ok v.toInt64)
      (mixedConstants.shareable [0, 1, 2, 3, 4, 5]) [[0, 4], [1, 3]] := by
  have hfound : mixedConstants.duplicates (fun v _ => .ok v.toInt64) [0, 1, 2, 3, 4, 5] =
      .ok [[0, 4], [1, 3]] := by decide +kernel
  have hknown : ∀ i ∈ mixedConstants.shareable [0, 1, 2, 3, 4, 5],
      mixedConstants.LiteralsKnown (fun v _ => .ok v.toInt64) i := by
    intro i hi
    constructor
    · revert i
      decide
    · revert i
      decide
  exact ⟨hfound, ((duplicates_are_classes _ _ _ hknown).2 _ hfound).2⟩

end Pool
end RegisterAllocation
