import SsaLowering.Lowering.Statement
import SsaLowering.Proofs.ExpressionComparison
import SsaLowering.Proofs.Initializers

/-!
# The same initializer in a unit and in a body

A global variable and a local one with the same declared type and the same initializer are accepted
alike, get the same types and start with the same value. The only exception is a negative integer
at an unsigned type, which a unit refuses and a body takes for its bits.
-/

namespace SsaLowering

/-- The source type of a variable that starts with a value. -/
def VariableDecl.sourceOf (decl : VariableDecl Term) (v : TypedValue) : SourceType :=
  if decl.type.isInferred then v.inferredType else decl.type

open StringPool TypedValue

/-! ## Names of texts -/

/-- A text that is in the pool already keeps its symbol. -/
theorem symbolOf_of_isPrefix {globals globals' : List GlobalVariable} {text : String}
    (h : texts (intern globals text).2 <+: texts globals') :
    symbolOf globals' text = symbolOf globals text := by
  obtain ⟨-, number, hname, hindex⟩ := Comparison.intern_eq globals text
  have hindex' : (texts globals').idxOf? text = some number := by
    obtain ⟨rest, hrest⟩ := h
    rw [← hrest, List.idxOf?, List.findIdx?_append]
    rw [List.idxOf?] at hindex
    rw [hindex]
    rfl
  rw [symbolOf, symbolOf, hname, intern, hindex']

theorem Value.named_congr {value : Value} {symbol symbol' : String → String}
    (h : ∀ text, value = .global text → symbol text = symbol' text) :
    value.named symbol = value.named symbol' := by
  cases value with
  | global text => exact congrArg Value.global (h text rfl)
  | _ => rfl

/-- Addresses are not made by conversion. -/
theorem value_eq_of_convertConstant? {v : TypedValue} {target : MachineType} {text : String}
    (h : convertConstant? v target = some (.global text)) : v.value = .global text := by
  unfold convertConstant? at h
  split at h
  · exact Option.some.inj h
  · split at h
    · split at h
      · cases h
      · split at h <;> cases h
    · split at h <;> cases h
    · cases h

/-- An initializer that denotes an address has the text that is there. -/
theorem Term.literalText?_of_constant? {term : Term} {v : TypedValue} {text : String}
    (h : term.constant? = some v) (hv : v.value = .global text) :
    Fold.literalText? term = some text := by
  fun_induction constant? term generalizing v with
  | case1 =>
    rcases lowerNumeral_cases (lowerNumeral_of_toOption h) with ⟨x, rfl⟩ | ⟨n, w, -, rfl, -⟩ <;>
      cases hv
  | case2 =>
    cases h
    cases hv
    rfl
  | case3 | case4 =>
    cases h
    cases hv
  | case5 _ operand ih =>
    obtain ⟨w, -, hopposite⟩ := Option.bind_eq_some_iff.mp h
    rw [opposite?] at hopposite
    split at hopposite <;> cases hopposite <;> cases hv
  | case6 _ target operand htarget ih =>
    obtain ⟨w, hw, hcast⟩ := Option.bind_eq_some_iff.mp h
    rw [castTo?] at hcast
    split at hcast
    · cases hcast
      rw [Fold.literalText?, if_pos htarget]
      exact ih hw hv
    · cases hcast
  | case7 | case8 => cases h

/-! ## Global variables -/

/-- A name is bound to the last global variable, which starts with a value. -/
def UnitState.Starts (u : UnitState) (name : String) (source : SourceType) (type : MachineType)
    (value : Value) : Prop :=
  ∃ (binding : Binding) (g : GlobalVariable),
    u.globals.lookup name = some binding ∧ binding.storage = .global name ∧
    binding.source = source ∧ binding.type = type ∧ u.code.globals.getLast? = some g ∧
    g.name = name ∧ g.type = type ∧ g.initializer = some value

namespace Declare

variable {decl : VariableDecl Term} {term : Term} {u : UnitState}

theorem exec_globalType_of_some (decl : VariableDecl Term) (v : TypedValue) (u : UnitState) :
    ∃ log, exec (globalType decl (some v)) u = (.ok (decl.sourceOf v), { u with log }) := by
  rw [globalType, VariableDecl.sourceOf]
  split
  · exact ⟨u.log, rfl⟩
  · rw [exec_bind, exec_get]
    by_cases hknown : u.structs.isKnown decl.type = true
    · exact ⟨u.log, by simp only [hknown]; rfl⟩
    · exact ⟨_, by simp only [hknown]; rfl⟩

theorem exec_globalValue_of_some (decl : VariableDecl Term) (source : SourceType) {v : TypedValue}
    {type : MachineType} {value : Value} (h : convertConstant? v type = some value) (u : UnitState) :
    exec (globalValue decl source type (some v)) u = (.ok (some value), u) := by
  rw [globalValue, h]
  rfl

theorem exec_globalValue_of_none (decl : VariableDecl Term) (source : SourceType) {v : TypedValue}
    {type : MachineType} (h : convertConstant? v type = none) (u : UnitState) :
    ∃ e, exec (globalValue decl source type (some v)) u = (.error e, u) := by
  rw [globalValue, h]
  exact ⟨_, rfl⟩

/-- A global variable under a new name is refused, or it starts with the constant that its
initializer denotes, at the type of the variable. -/
theorem exec_globalVariable_cases (hnew : u.globals.lookup decl.name = none)
    (hinit : decl.initializer = some term) :
    (∃ e u', exec (globalVariable decl) u = (.error e, u') ∧
      ∀ v, term.constant? = some v →
        convertConstant? v (u.structs.resolve (decl.sourceOf v)) = none) ∨
    ∃ v value u', term.constant? = some v ∧
      convertConstant? v (u.structs.resolve (decl.sourceOf v)) = some value ∧
      exec (globalVariable decl) u = (.ok (), u') ∧
      hold u.code.globals (Fold.literalText? term) <+: u'.code.globals ∧
      u'.Starts decl.name (decl.sourceOf v) (u.structs.resolve (decl.sourceOf v))
        (value.named (symbolOf u.code.globals)) := by
  have hstart := exec_globalVariable_of_new hnew
  rw [hinit] at hstart
  have hmap : exec ((some term).mapM fun term => fold (Fold.initializer decl.name term)) u =
      exec (some <$> fold (Fold.initializer decl.name term)) u := rfl
  rw [exec_map, exec_fold] at hmap
  rcases Fold.exec_initializer_cases decl.name term u.code.globals with
    ⟨hnone, e, hexec⟩ | ⟨v, hv, hexec⟩
  all_goals rw [hexec] at hmap
  · exact .inl ⟨e, _, hstart.trans (exec_bind_of_error hmap), by simp [hnone]⟩
  · obtain ⟨log, hsource⟩ := exec_globalType_of_some decl (v.named (symbolOf u.code.globals))
      { u with code := { u.code with globals := hold u.code.globals (Fold.literalText? term) } }
    replace hstart := hstart.trans ((exec_bind_of_ok hmap).trans
      ((exec_bind_of_ok hsource).trans (exec_bind_of_ok rfl)))
    have hconvert := convertConstant?_named v (symbolOf u.code.globals)
      (u.structs.resolve (decl.sourceOf v))
    cases hvalue : convertConstant? v (u.structs.resolve (decl.sourceOf v)) with
    | none =>
      rw [hvalue] at hconvert
      obtain ⟨e, he⟩ := exec_globalValue_of_none decl (decl.sourceOf v) hconvert _
      refine .inl ⟨e, _, hstart.trans (exec_bind_of_error he), fun w hw => ?_⟩
      obtain rfl := Option.some.inj (hv.symm.trans hw)
      exact hvalue
    | some value =>
      rw [hvalue] at hconvert
      exact .inr ⟨v, value, _, hv, hvalue, hstart.trans
        (exec_bind_of_ok (exec_globalValue_of_some decl (decl.sourceOf v) hconvert _)),
        List.prefix_append _ _, _, _, List.lookup_cons_self, rfl, rfl, rfl, List.getLast?_concat,
        rfl, rfl, rfl⟩

/-- A global variable is accepted if its name is new and its initializer denotes a constant of its
type. -/
theorem exists_exec_globalVariable_iff (hinit : decl.initializer = some term) :
    (∃ u', exec (globalVariable decl) u = (.ok (), u')) ↔
      u.globals.lookup decl.name = none ∧ ∃ v, term.constant? = some v ∧
        (convertConstant? v (u.structs.resolve (decl.sourceOf v))).isSome = true := by
  cases hnew : u.globals.lookup decl.name with
  | some binding =>
    have hrepeated : exec (globalVariable decl) u = (.error _, u) :=
      exec_globalVariable_of_repeated (by simp [hnew])
    simp [hrepeated]
  | none =>
    rcases exec_globalVariable_cases hnew hinit with
      ⟨e, u₁, hu₁, hnone⟩ | ⟨v, value, u₁, hv, hvalue, hu₁, -⟩
    · constructor
      · rintro ⟨u', hu⟩
        cases hu.symm.trans hu₁
      · rintro ⟨-, v, hv, hsome⟩
        rw [hnone v hv] at hsome
        cases hsome
    · exact iff_of_true ⟨u₁, hu₁⟩ ⟨rfl, v, hv, by rw [hvalue]; rfl⟩

/-- A global variable that is accepted starts with the constant that its initializer denotes. -/
theorem starts_of_exec (hinit : decl.initializer = some term) {u' : UnitState}
    (h : exec (globalVariable decl) u = (.ok (), u')) :
    ∃ v value, term.constant? = some v ∧
      convertConstant? v (u.structs.resolve (decl.sourceOf v)) = some value ∧
      hold u.code.globals (Fold.literalText? term) <+: u'.code.globals ∧
      u'.Starts decl.name (decl.sourceOf v) (u.structs.resolve (decl.sourceOf v))
        (value.named (symbolOf u.code.globals)) := by
  have hnew := ((exists_exec_globalVariable_iff hinit).mp ⟨u', h⟩).1
  rcases exec_globalVariable_cases hnew hinit with
    ⟨e, u₁, hu₁, -⟩ | ⟨v, value, u₁, hv, hvalue, hu₁, hstarts⟩
  · cases h.symm.trans hu₁
  · cases h.symm.trans hu₁
    exact ⟨v, value, hv, hvalue, hstarts⟩

end Declare

/-! ## Slots in open blocks -/

theorem Block.isTerminated_insertSlot_of_open {b : Block} {slot : Instr}
    (hslot : slot.isTerminator = false) (h : b.isTerminated = false) :
    (Build.insertSlot slot b).isTerminated = false := by
  have hsplit := List.takeWhile_append_dropWhile (p := Instr.isAlloca) (l := b.body)
  rw [isTerminated, terminator?, Build.insertSlot, List.getLast?_append, List.getLast?_cons]
  rw [isTerminated, terminator?, ← hsplit, List.getLast?_append] at h
  cases hlast : (b.body.dropWhile Instr.isAlloca).getLast? with
  | none => simp [hslot]
  | some i => simpa [hlast] using h

namespace FunctionDef

variable {f : FunctionDef} {l : Nat} {b : Block} {slot : Instr}

/-- A slot goes to the entry block, and no other block changes. -/
theorem block?_withSlot (hb : f.block? l = some b) (slot : Instr) :
    (f.withSlot slot).block? l = some b ∨
      (f.withSlot slot).block? l = some (Build.insertSlot slot b) := by
  cases hblocks : f.blocks with
  | nil => simp [block?, hblocks] at hb
  | cons entry rest =>
    simp only [block?, hblocks, withSlot, List.find?_cons] at hb ⊢
    by_cases hl : (entry.label == l) = true
    · right
      simp only [hl, Option.some.injEq] at hb
      subst hb
      simp [Build.insertSlot, hl]
    · left
      simp only [hl] at hb
      simp [Build.insertSlot, hl, hb]

/-- The slot stays there when another instruction is added to a block. -/
theorem exists_entry_withSlot (hb : f.block? l = some b) (slot i : Instr) :
    ∃ entry, ((f.withSlot slot).modifyBlock l (·.push i)).blocks.head? = some entry ∧
      slot ∈ entry.body := by
  cases hblocks : f.blocks with
  | nil => simp [block?, hblocks] at hb
  | cons entry rest =>
    have hmem : slot ∈ (Build.insertSlot slot entry).body := by simp [Build.insertSlot]
    simp only [withSlot, hblocks, modifyBlock, modifyFirst]
    split
    · exact ⟨_, rfl, List.mem_append_left _ hmem⟩
    · exact ⟨_, rfl, hmem⟩

end FunctionDef

theorem Scope.find?_declare (scope : Scope) (name : String) (binding : Binding) :
    (scope.declare name binding).find? name = some binding := by
  have hnone : (scope.entries.filter (·.1 != name)).lookup name = none := by
    rw [List.lookup_eq_none_iff]
    intro entry hentry
    rw [bne_comm]
    exact (List.mem_filter.mp hentry).2
  rw [find?, declare, List.lookup_append, hnone]
  simp

namespace BodyState

/-- A name is bound to a slot of its own in the entry block, and the last instruction has put a
value there. -/
def Fills (s : BodyState) (name : String) (source : SourceType) (type : MachineType)
    (value : Value) : Prop :=
  ∃ (f : FunctionDef) (l : Nat) (b entry : Block) (t : Nat) (binding : Binding),
    s.StandsIn f l (b.push (.store value (.temp t) type)) ∧
    f.blocks.head? = some entry ∧ .alloca t type ∈ entry.body ∧
    s.scope.find? name = some binding ∧ binding.storage = .stack (.temp t) ∧
    binding.source = source ∧ binding.type = type

variable {s : BodyState} {f : FunctionDef} {l : Nat} {b : Block}

/-- The builder alone decides which block is open. -/
theorem StandsIn.of_builder_eq {s' : BodyState} (h : s.StandsIn f l b)
    (hbuilder : s'.builder = s.builder) : s'.StandsIn f l b :=
  ⟨⟨hbuilder ▸ h.function, hbuilder ▸ h.current, h.block⟩, h.isOpen⟩

/-- The state behind a new slot. -/
def reserving (s : BodyState) (f : FunctionDef) (type : MachineType) : BodyState :=
  { s with builder := { s.builder with
      nextTemp := s.builder.nextTemp + 1
      function := some (f.withSlot (.alloca s.builder.nextTemp type)) } }

/-- The block stays open. -/
theorem StandsIn.reserving (h : s.StandsIn f l b) (type : MachineType) : ∃ b',
    (s.reserving f type).StandsIn (f.withSlot (.alloca s.builder.nextTemp type)) l b' := by
  rcases f.block?_withSlot h.block (.alloca s.builder.nextTemp type) with hb | hb
  · exact ⟨b, ⟨rfl, h.current, hb⟩, h.isOpen⟩
  · exact ⟨_, ⟨rfl, h.current, hb⟩, Block.isTerminated_insertSlot_of_open rfl h.isOpen⟩

end BodyState

/-! ## Local variables -/

namespace Lower

open BodyState

variable {s : BodyState} {f : FunctionDef} {l : Nat} {b : Block} {env : Environment}
  {decl : VariableDecl Term} {term : Term}

theorem exec_entryAlloca (h : s.StandsIn f l b) (type : MachineType) :
    exec (build (Build.entryAlloca type)) s =
      (.ok (.temp s.builder.nextTemp), s.reserving f type) := by
  refine exec_build_of_ok ?_
  have hf : { s.builder with nextTemp := s.builder.nextTemp + 1 }.function = some f := h.function
  have hblock := h.block
  cases hblocks : f.blocks with
  | nil => simp [FunctionDef.block?, hblocks] at hblock
  | cons entry rest =>
    simp [Build.entryAlloca, Build.newTemp, exec_bind, exec_map, Build.exec_function hf, hblocks,
      FunctionDef.withSlot]

/-- A variable with a first value is put into a slot. -/
theorem exists_exec_bindVariable (h : s.StandsIn f l b) (decl : VariableDecl Term)
    (source : SourceType) (type : MachineType) (value : Value) :
    ∃ s', exec (bindVariable decl source type (some value)) s = (.ok (), s') ∧
      s'.Fills decl.name source type value := by
  let slot : Instr := .alloca s.builder.nextTemp type
  let store : Instr := .store value (.temp s.builder.nextTemp) type
  obtain ⟨b', h'⟩ := h.reserving type
  obtain ⟨entry, hentry, hslot⟩ := FunctionDef.exists_entry_withSlot h.block slot store
  let stored : BodyState := { s.reserving f type with
    builder := { (s.reserving f type).builder with
      function := some ((f.withSlot slot).modifyBlock l (·.push store)) } }
  have hstore : exec (build (Build.store value (.temp s.builder.nextTemp) type))
      (s.reserving f type) = (.ok (), stored) :=
    exec_build_of_ok (Build.exec_emit_of_open h'.function h'.current h'.block h'.isOpen store)
  have hstands : stored.StandsIn _ l (b'.push store) :=
    ⟨⟨rfl, h'.current, FunctionDef.block?_push h'.block store⟩, by
      rw [Block.isTerminated_push]
      rfl⟩
  rw [bindVariable, exec_bind_of_ok (exec_entryAlloca h type), storeInitial,
    exec_bind_of_ok hstore, declareLocal, exec_modify]
  exact ⟨_, rfl, _, l, b', entry, s.builder.nextTemp, _, hstands.of_builder_eq rfl, hentry, hslot,
    Scope.find?_declare _ _ _, rfl, rfl, rfl⟩

/-- A variable without a declared type starts with the constant that its initializer denotes. -/
theorem exec_inferVariable_cases (h : s.StandsIn f l b) (env : Environment)
    (hinferred : decl.type.isInferred = true) (hinit : decl.initializer = some term)
    (hterm : term.isInitializer = true) :
    (term.constant? = none ∧ ∃ e s', exec (inferVariable env decl) s = (.error e, s')) ∨
    ∃ v s', term.constant? = some v ∧ s'.StandsIn f l b ∧
      env.structs.resolve (decl.sourceOf v) = v.type ∧
      exec (inferVariable env decl) s =
        (.ok (decl.sourceOf v, v.type, some (v.value.named (symbolOf s.globals))), s') := by
  rw [inferVariable, hinit]
  rcases (comesTo_lowerTerm env hterm).cases s with ⟨hnone, e, s', hexec⟩ | ⟨v, log, hv, hexec⟩
  · exact .inl ⟨hnone, e, s', exec_bind_of_error hexec⟩
  · have hinitial := Term.isInitial_of_constant? hv
    have hsource : decl.sourceOf v = v.inferredType := by
      rw [VariableDecl.sourceOf, if_pos hinferred]
    let s' : BodyState := { s with globals := hold s.globals (Fold.literalText? term), log }
    refine .inr ⟨v, s', hv, h.of_builder_eq rfl, ?_, ?_⟩
    · rw [hsource, hinitial.resolve_inferredType]
    · rw [exec_bind_of_ok hexec, type_named, if_neg hinitial.type_ne_void, hsource]
      rfl

/-- At a type, an initializer is the constant that it denotes, if that converts to the type. -/
theorem exec_coerce_cases (h : s.StandsIn f l b) (env : Environment)
    (hterm : term.isInitializer = true) (source : SourceType) (type : MachineType) (use : String) :
    ((∃ e s', exec (lowerTerm env term >>= fun v => coerce v source type use) s = (.error e, s')) ∧
      ∀ v, term.constant? = some v → ¬ v.ConvertsTo type) ∨
    ∃ v value s' f' b', term.constant? = some v ∧ s'.StandsIn f' l b' ∧ v.ConvertsTo type ∧
      (∀ x, convertConstant? v type = some x → value = x.named (symbolOf s.globals)) ∧
      exec (lowerTerm env term >>= fun v => coerce v source type use) s = (.ok value, s') := by
  rcases (comesTo_lowerTerm env hterm).cases s with ⟨hnone, e, s', hexec⟩ | ⟨v, log, hv, hexec⟩
  · exact .inl ⟨⟨e, s', exec_bind_of_error hexec⟩, by simp [hnone]⟩
  let s₁ : BodyState := { s with globals := hold s.globals (Fold.literalText? term), log }
  have hstands : s₁.StandsIn f l b := h.of_builder_eq rfl
  rw [exec_bind_of_ok hexec, coerce]
  obtain ⟨result, s', f', b', hconvert, hstands', hiff, -⟩ :=
    exists_exec_convert? hstands (v.named (symbolOf s.globals)) type
  rw [convertsTo_named] at hiff
  rw [exec_bind_of_ok hconvert]
  cases result with
  | none =>
    refine .inl ⟨⟨_, _, rfl⟩, fun w hw => ?_⟩
    obtain rfl := Option.some.inj (hv.symm.trans hw)
    simpa using hiff
  | some value =>
    refine .inr ⟨v, value, s', f', b', hv, hstands', hiff.mp rfl, fun x hx => ?_, rfl⟩
    have hnamed : convertConstant? (v.named (symbolOf s.globals)) type =
        some (x.named (symbolOf s.globals)) := by
      rw [convertConstant?_named, hx]
      rfl
    rw [convert?, hnamed] at hconvert
    cases hconvert
    rfl

/-- A variable with a declared type starts with the constant that its initializer denotes, if that
converts to the type. -/
theorem exec_declaredVariable_cases (h : s.StandsIn f l b) (env : Environment)
    (hinit : decl.initializer = some term) (hterm : term.isInitializer = true) :
    ((∃ e s', exec (declaredVariable env decl) s = (.error e, s')) ∧
      ∀ v, term.constant? = some v → ¬ v.ConvertsTo (env.structs.resolve decl.type)) ∨
    ∃ v value s' f' b', term.constant? = some v ∧ s'.StandsIn f' l b' ∧
      v.ConvertsTo (env.structs.resolve decl.type) ∧
      (∀ x, convertConstant? v (env.structs.resolve decl.type) = some x →
        value = x.named (symbolOf s.globals)) ∧
      exec (declaredVariable env decl) s =
        (.ok (decl.type, env.structs.resolve decl.type, some value), s') := by
  have hstart : ∃ log, exec (declaredVariable env decl) s =
      exec ((fun value => (decl.type, env.structs.resolve decl.type, some value)) <$>
        (lowerTerm env term >>= fun v => coerce v decl.type (env.structs.resolve decl.type)
          ("initializer of '" ++ decl.name ++ "'"))) { s with log } := by
    simp only [declaredVariable, hinit, map_eq_pure_bind, bind_assoc]
    split
    · exact ⟨s.log, rfl⟩
    · exact ⟨_, rfl⟩
  obtain ⟨log, hstart⟩ := hstart
  let s₁ : BodyState := { s with log }
  have hstands : s₁.StandsIn f l b := h.of_builder_eq rfl
  rw [hstart, exec_map]
  rcases exec_coerce_cases hstands env hterm decl.type
      (env.structs.resolve decl.type) ("initializer of '" ++ decl.name ++ "'") with
    ⟨⟨e, s', hexec⟩, hnot⟩ | ⟨v, value, s', f', b', hv, hstands, hconverts, hvalue, hexec⟩
  · exact .inl ⟨⟨e, s', by rw [hexec]⟩, hnot⟩
  · exact .inr ⟨v, value, s', f', b', hv, hstands, hconverts, hvalue, by rw [hexec]⟩

/-- A local variable is refused, or it is put into a slot with the constant that its initializer
denotes, at the type of the variable. -/
theorem exec_lowerVariableDecl_cases (h : s.StandsIn f l b) (env : Environment)
    (hinit : decl.initializer = some term) (hterm : term.isInitializer = true) :
    ((∃ e s', exec (lowerVariableDecl env decl) s = (.error e, s')) ∧
      ∀ v, term.constant? = some v →
        ¬ v.ConvertsTo (env.structs.resolve (decl.sourceOf v))) ∨
    ∃ v value s', term.constant? = some v ∧
      v.ConvertsTo (env.structs.resolve (decl.sourceOf v)) ∧
      (∀ x, convertConstant? v (env.structs.resolve (decl.sourceOf v)) = some x →
        value = x.named (symbolOf s.globals)) ∧
      exec (lowerVariableDecl env decl) s = (.ok (), s') ∧
      s'.Fills decl.name (decl.sourceOf v) (env.structs.resolve (decl.sourceOf v)) value := by
  rw [lowerVariableDecl, variableValue]
  cases hinferred : decl.type.isInferred with
  | true =>
    rw [if_pos rfl]
    rcases exec_inferVariable_cases h env hinferred hinit hterm with
      ⟨hnone, e, s', hexec⟩ | ⟨v, s', hv, hstands, htype, hexec⟩
    · exact .inl ⟨⟨e, s', exec_bind_of_error hexec⟩, by simp [hnone]⟩
    · obtain ⟨s'', hbind, hfills⟩ := exists_exec_bindVariable hstands decl (decl.sourceOf v) v.type
        (v.value.named (symbolOf s.globals))
      rw [exec_bind_of_ok hexec]
      refine .inr ⟨v, _, s'', hv, htype ▸ .same, fun x hx => ?_, hbind, htype ▸ hfills⟩
      rw [htype, convertConstant?, if_pos rfl] at hx
      rw [Option.some.inj hx]
  | false =>
    have hsource (v : TypedValue) : decl.sourceOf v = decl.type := by
      rw [VariableDecl.sourceOf, if_neg (by simp [hinferred])]
    simp only [hsource, Bool.false_eq_true, if_false]
    rcases exec_declaredVariable_cases h env hinit hterm with
      ⟨⟨e, s', hexec⟩, hnot⟩ | ⟨v, value, s', f', b', hv, hstands, hconverts, hvalue, hexec⟩
    · exact .inl ⟨⟨e, s', exec_bind_of_error hexec⟩, hnot⟩
    · obtain ⟨s'', hbind, hfills⟩ := exists_exec_bindVariable hstands decl decl.type
        (env.structs.resolve decl.type) value
      exact .inr ⟨v, value, s'', hv, hconverts, hvalue, (exec_bind_of_ok hexec).trans hbind, hfills⟩

/-- A local variable is accepted if its initializer denotes a constant that converts to its type. -/
theorem exists_exec_lowerVariableDecl_iff (h : s.StandsIn f l b) (env : Environment)
    (hinit : decl.initializer = some term) (hterm : term.isInitializer = true) :
    (∃ s', exec (lowerVariableDecl env decl) s = (.ok (), s')) ↔
      ∃ v, term.constant? = some v ∧ v.ConvertsTo (env.structs.resolve (decl.sourceOf v)) := by
  rcases exec_lowerVariableDecl_cases h env hinit hterm with
    ⟨⟨e, s₁, hs₁⟩, hnot⟩ | ⟨v, value, s₁, hv, hconverts, -, hs₁, -⟩
  · constructor
    · rintro ⟨s', hs⟩
      cases hs.symm.trans hs₁
    · rintro ⟨v, hv, hconverts⟩
      exact absurd hconverts (hnot v hv)
  · exact iff_of_true ⟨s₁, hs₁⟩ ⟨v, hv, hconverts⟩

/-- A local variable that is accepted starts with the constant that its initializer denotes, if
that is one of the type of the variable. -/
theorem fills_of_exec (h : s.StandsIn f l b) (env : Environment)
    (hinit : decl.initializer = some term) (hterm : term.isInitializer = true) {s' : BodyState}
    (hexec : exec (lowerVariableDecl env decl) s = (.ok (), s')) {v : TypedValue} {x : Value}
    (hv : term.constant? = some v)
    (hx : convertConstant? v (env.structs.resolve (decl.sourceOf v)) = some x) :
    s'.Fills decl.name (decl.sourceOf v) (env.structs.resolve (decl.sourceOf v))
      (x.named (symbolOf s.globals)) := by
  rcases exec_lowerVariableDecl_cases h env hinit hterm with
    ⟨⟨e, s₁, hs₁⟩, -⟩ | ⟨w, value, s₁, hw, -, hvalue, hs₁, hfills⟩
  · cases hexec.symm.trans hs₁
  · cases hexec.symm.trans hs₁
    obtain rfl := Option.some.inj (hw.symm.trans hv)
    exact hvalue x hx ▸ hfills

end Lower

/-- Behind the unit that holds the text of an initializer, the constant of the initializer bears the
same name as in the unit. -/
theorem Term.named_constant_eq {term : Term} {v : TypedValue} {target : MachineType} {value : Value}
    {globals held globals' : List GlobalVariable} (hv : term.constant? = some v)
    (hvalue : convertConstant? v target = some value)
    (hheld : hold globals (Fold.literalText? term) <+: held)
    (htexts : ∀ text, Fold.literalText? term = some text → texts held <+: texts globals') :
    value.named (symbolOf globals') = value.named (symbolOf globals) := by
  refine Value.named_congr ?_
  rintro text rfl
  have htext := literalText?_of_constant? hv (value_eq_of_convertConstant? hvalue)
  rw [htext] at hheld
  exact symbolOf_of_isPrefix ((hheld.filterMap text?).trans (htexts text htext))

open BodyState Lower Declare

/-- The same declared type and the same initializer in a unit and in a body. The declaration is
accepted in the unit if its name is new there and the body accepts it, unless it starts with a
negative integer at an unsigned type of no fewer bits, which a body always accepts. If both accept
it, then the source type, the machine type and the first value are the same, provided that the body
is lowered behind the declaration of the unit, so that it finds the text under the same symbol. -/
theorem initializers_agree {s : BodyState} {f : FunctionDef} {l : Nat} {b : Block}
    (h : s.StandsIn f l b) (env : Environment) (u : UnitState) (hstructs : env.structs = u.structs)
    (global decl : VariableDecl Term) {term : Term} (htype : decl.type = global.type)
    (hglobal : global.initializer = some term) (hlocal : decl.initializer = some term)
    (hterm : term.isInitializer = true) :
    ((∃ u', exec (globalVariable global) u = (.ok (), u')) ↔
      u.globals.lookup global.name = none ∧
      (∃ s', exec (lowerVariableDecl env decl) s = (.ok (), s')) ∧
      ¬ ∃ v, term.constant? = some v ∧ v.Wraps (u.structs.resolve (global.sourceOf v))) ∧
    (∀ v, term.constant? = some v → v.Wraps (u.structs.resolve (global.sourceOf v)) →
      ∃ s', exec (lowerVariableDecl env decl) s = (.ok (), s')) ∧
    ∀ u' s', exec (globalVariable global) u = (.ok (), u') →
      exec (lowerVariableDecl env decl) s = (.ok (), s') →
      (∀ text, Fold.literalText? term = some text → texts u'.code.globals <+: texts s.globals) →
      ∃ source type value, u'.Starts global.name source type value ∧
        s'.Fills decl.name source type value := by
  have hsource (v : TypedValue) : decl.sourceOf v = global.sourceOf v := by
    rw [VariableDecl.sourceOf, VariableDecl.sourceOf, htype]
  have hunit := exists_exec_globalVariable_iff (u := u) hglobal
  have hbody := exists_exec_lowerVariableDecl_iff h env hlocal hterm
  simp only [hsource, hstructs] at hbody
  have hconvert {v : TypedValue} (hv : term.constant? = some v) :=
    (Term.isInitial_of_constant? hv).isSome_convertConstant?_iff
      (u.structs.resolve (global.sourceOf v))
  refine ⟨?_, fun v hv hwraps => hbody.mpr ⟨v, hv, hwraps.convertsTo⟩, fun u' s' hu hs htexts => ?_⟩
  · rw [hunit, hbody]
    constructor
    · rintro ⟨hnew, v, hv, hsome⟩
      obtain ⟨hconverts, hwraps⟩ := (hconvert hv).mp hsome
      refine ⟨hnew, ⟨v, hv, hconverts⟩, ?_⟩
      rintro ⟨w, hw, h⟩
      obtain rfl := Option.some.inj (hw.symm.trans hv)
      exact hwraps h
    · rintro ⟨hnew, ⟨v, hv, hconverts⟩, hwraps⟩
      exact ⟨hnew, v, hv, (hconvert hv).mpr ⟨hconverts, fun h => hwraps ⟨v, hv, h⟩⟩⟩
  · obtain ⟨v, value, hv, hvalue, hpool, hstarts⟩ := starts_of_exec hglobal hu
    rw [← hstructs, ← hsource] at hvalue
    have hfills := fills_of_exec h env hlocal hterm hs hv hvalue
    rw [Term.named_constant_eq hv hvalue hpool htexts, hstructs, hsource] at hfills
    exact ⟨_, _, _, hstarts, hfills⟩

/-- A variable of a type that starts with a negative number. -/
def negativeVariable (type numeral : String) : VariableDecl Term where
  name := "_limit"
  type := .named type
  isMutable := true
  initializer := some (.unary none .minus (.literal none (.number numeral)))
  location := none

/-- A unit in which nothing is declared. -/
def emptyUnit : UnitState := .initial "main" .empty

theorem initializers_agree_minusFive :
    ∃ (u' : UnitState) (s' : BodyState) (source : SourceType) (type : MachineType) (value : Value),
      exec (globalVariable (negativeVariable "i64" "5")) emptyUnit = (.ok (), u') ∧
      exec (lowerVariableDecl (emptyUnit.environment (.procedure "main"))
        (negativeVariable "i64" "5")) (emptyUnit.opened (.procedure "main")) = (.ok (), s') ∧
      u'.Starts "_limit" source type value ∧ s'.Fills "_limit" source type value := by
  obtain ⟨hiff, -, hsame⟩ := initializers_agree (emptyUnit.standsIn_opened (.procedure "main"))
    (emptyUnit.environment (.procedure "main")) emptyUnit rfl (negativeVariable "i64" "5")
    (negativeVariable "i64" "5") rfl rfl rfl rfl
  have hok : (exec (globalVariable (negativeVariable "i64" "5")) emptyUnit).1.isOk = true := by
    decide +kernel
  rcases hu : exec (globalVariable (negativeVariable "i64" "5")) emptyUnit with ⟨e | _, u'⟩
  · rw [hu] at hok
    cases hok
  · obtain ⟨-, ⟨s', hs⟩, -⟩ := hiff.mp ⟨u', hu⟩
    obtain ⟨source, type, value, hstarts, hfills⟩ := hsame u' s' hu hs fun text htext => by
      cases htext
    exact ⟨u', s', source, type, value, rfl, hs, hstarts, hfills⟩

/-- A unit refuses minus one at an unsigned type, and a body stores it. -/
theorem initializers_disagree_minusOne :
    (exec (globalVariable (negativeVariable "u32" "1")) emptyUnit).1.isOk = false ∧
    (exec (lowerVariableDecl (emptyUnit.environment (.procedure "main"))
      (negativeVariable "u32" "1")) (emptyUnit.opened (.procedure "main"))).1.isOk = true ∧
    (Program.generate .standard ⟨[.variable (negativeVariable "u32" "1")]⟩ .empty).2.count .error =
      1 ∧
    ∃ g ∈ (Program.generate .standard ⟨[.function { (DeclaredFunction.procedure "main").decl with
        body := some (.variable none (negativeVariable "u32" "1")) }]⟩ .empty).1.functions,
      .store (.int (-1)) (.temp 0) .u32 ∈ g.instrs := by
  decide +kernel

end SsaLowering
