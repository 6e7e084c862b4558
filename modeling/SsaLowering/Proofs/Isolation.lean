import SsaLowering.Proofs.BodyComparison

/-!
# Functions in isolation

The bodies of other functions, and their order, leave no trace in the code of a function but the
numbers of its string literals. With the texts themselves in the place of the addresses of their
constants, the code of a function is the same in all programs that agree on everything but bodies,
and the same is reported about it.
-/

namespace SsaLowering

open StringPool

/-! ## Texts in the place of addresses -/

/-- The instruction with other operands. -/
def Instr.mapValues (change : Value → Value) : Instr → Instr
  | .binary result op lhs rhs type => .binary result op (change lhs) (change rhs) type
  | .load result ptr type => .load result (change ptr) type
  | .store value ptr type => .store (change value) (change ptr) type
  | .address result base ptr indices => .address result base (change ptr) (indices.map change)
  | .extract result aggregate type index fieldType =>
    .extract result (change aggregate) type index fieldType
  | .alloca result type => .alloca result type
  | .call result callee type args =>
    .call result (change callee) type (args.map fun arg => (arg.1, change arg.2))
  | .ret none => .ret none
  | .ret (some (type, value)) => .ret (some (type, change value))
  | .jump target => .jump target
  | .branch condition ifTrue ifFalse => .branch (change condition) ifTrue ifFalse
  | .phi result incoming type =>
    .phi result (incoming.map fun source => (change source.1, source.2)) type
  | .convert result op value source target => .convert result op (change value) source target
  | .unreachable => .unreachable

/-- The block with other operands. -/
def Block.mapValues (change : Value → Value) (b : Block) : Block :=
  { b with body := b.body.map (Instr.mapValues change) }

/-- The function with other operands. -/
def FunctionDef.mapValues (change : Value → Value) (f : FunctionDef) : FunctionDef :=
  { f with blocks := f.blocks.map (Block.mapValues change) }

namespace CodeModule

/-- The text of the string constant with the name. -/
def textAt? (m : CodeModule) (name : String) : Option String := (m.global? name).bind text?

/-- The address of a string constant is replaced by the text that the constant holds. -/
def spellValue (m : CodeModule) : Value → Value
  | .global name => match m.textAt? name with
    | some text => .bytes text
    | none => .global name
  | v => v

/-- The function with the texts of string constants in the place of their addresses. -/
def spell (m : CodeModule) (f : FunctionDef) : FunctionDef := f.mapValues m.spellValue

theorem spellValue_of_ne {m : CodeModule} {v : Value}
    (h : ∀ name, v = .global name → m.textAt? name = none) : m.spellValue v = v := by
  cases v with
  | global name => rw [spellValue, h name rfl]
  | _ => rfl

end CodeModule

section

variable {R : Value → Value → Prop} {change change' : Value → Value}
  (hR : ∀ v v', R v v' → change' v' = change v)

include hR

theorem Instr.Like.mapValues {i i' : Instr} (h : i.Like R i') :
    i'.mapValues change' = i.mapValues change := by
  cases h with
  | leave | alloca | jump | unreachable => rfl
  | binary _ _ _ hl hr => rw [Instr.mapValues, Instr.mapValues, hR _ _ hl, hR _ _ hr]
  | store _ hv hp => rw [Instr.mapValues, Instr.mapValues, hR _ _ hv, hR _ _ hp]
  | address _ _ hp hi =>
    rw [Instr.mapValues, Instr.mapValues, hR _ _ hp, map_eq_of_forall₂ hi hR]
  | @call _ _ args args' _ _ hc ha =>
    have hargs : args'.map (fun arg => (arg.1, change' arg.2)) =
        args.map fun arg => (arg.1, change arg.2) :=
      map_eq_of_forall₂ ha fun _ _ h => Prod.ext h.1.symm (hR _ _ h.2)
    rw [Instr.mapValues, Instr.mapValues, hR _ _ hc, hargs]
  | @phi incoming incoming' _ _ hi =>
    have hincoming : incoming'.map (fun source => (change' source.1, source.2)) =
        incoming.map fun source => (change source.1, source.2) :=
      map_eq_of_forall₂ hi fun _ _ h => Prod.ext (hR _ _ h.1) h.2.symm
    rw [Instr.mapValues, Instr.mapValues, hincoming]
  | load _ _ hv | extract _ _ _ _ hv | ret _ hv | branch _ _ hv | convert _ _ _ _ hv =>
    rw [Instr.mapValues, Instr.mapValues, hR _ _ hv]

theorem Block.Like.mapValues {b b' : Block} (h : b.Like R b') :
    b'.mapValues change' = b.mapValues change := by
  rw [Block.mapValues, Block.mapValues, h.label, h.hint,
    map_eq_of_forall₂ h.body fun _ _ hi => hi.mapValues hR]

/-- Functions that are alike are equal once their operands are. -/
theorem FunctionDef.Like.mapValues {f f' : FunctionDef} (h : f.Like R f') :
    f'.mapValues change' = f.mapValues change := by
  rw [FunctionDef.mapValues, FunctionDef.mapValues,
    map_eq_of_forall₂ h.blocks fun _ _ hb => hb.mapValues hR, h.head]

end

/-! ## Programs that differ in bodies -/

/-- What others see of a function: its name, the types of its parameters, and its return type. -/
def FunctionDecl.face (decl : FunctionDecl Statement) : String × List SourceType × SourceType :=
  (decl.name, decl.params.map (·.type), decl.returnType)

namespace Program

open UnitState

/-- Two programs that differ in the bodies and the order of their functions at most. The functions
have distinct names, and no global variable has the name of a string constant. -/
structure SharesFrame (p p' : Program) : Prop where
  interfaces : p'.interfaces = p.interfaces
  structs : p'.structs = p.structs
  globals : p'.globals = p.globals
  faces : ∀ face, face ∈ p'.functions.map (·.face) ↔ face ∈ p.functions.map (·.face)
  nodup : (p.functions.map (·.name)).Nodup
  nodup' : (p'.functions.map (·.name)).Nodup
  unnumbered : ∀ decl ∈ p.globals, ∀ number, decl.name ≠ nameOf number

variable {p p' : Program} {options : LoweringOptions} {log : DiagnosticLog} {s s' : UnitState}
  {d : DeclaredFunction} {body : Statement} {decl : FunctionDecl Statement}

namespace SharesFrame

theorem refl (h : p.SharesFrame p') : p.SharesFrame p where
  interfaces := rfl
  structs := rfl
  globals := rfl
  faces _ := Iff.rfl
  nodup := h.nodup
  nodup' := h.nodup
  unnumbered := h.unnumbered

theorem symm (h : p.SharesFrame p') : p'.SharesFrame p where
  interfaces := h.interfaces.symm
  structs := h.structs.symm
  globals := h.globals.symm
  faces face := (h.faces face).symm
  nodup := h.nodup'
  nodup' := h.nodup
  unnumbered := h.globals ▸ h.unnumbered

theorem laidOut_eq (h : p.SharesFrame p') (moduleName : String) (log : DiagnosticLog) :
    p'.laidOut moduleName log = p.laidOut moduleName log := by
  rw [laidOut, laidOut, h.interfaces, h.structs]

/-- A function of both programs is declared in the same way. -/
theorem declaredAs_eq (h : p.SharesFrame p') (moduleName : String) (log : DiagnosticLog)
    (decl : FunctionDecl Statement) :
    p'.declaredAs moduleName log decl = p.declaredAs moduleName log decl := by
  rw [declaredAs, declaredAs, h.laidOut_eq]

/-- What is found under a name has the same face in both programs. -/
theorem find?_face (h : p.SharesFrame p') (name : String) :
    Option.Rel (fun decl decl' : FunctionDecl Statement => decl'.face = decl.face)
      (p.functions.find? (·.name == name)) (p'.functions.find? (·.name == name)) := by
  cases hfind : p.functions.find? (·.name == name) with
  | none =>
    cases hfind' : p'.functions.find? (·.name == name) with
    | none => exact .none
    | some decl' =>
      have hface := (h.faces decl'.face).mp (List.mem_map_of_mem (List.mem_of_find?_eq_some hfind'))
      obtain ⟨decl, hdecl, hsame⟩ := List.mem_map.mp hface
      have hname : decl.name = decl'.name := congrArg Prod.fst hsame
      have hnone := List.find?_eq_none.mp hfind decl hdecl
      rw [hname] at hnone
      exact absurd (List.find?_some hfind') hnone
  | some decl =>
    have hface := (h.faces decl.face).mpr (List.mem_map_of_mem (List.mem_of_find?_eq_some hfind))
    obtain ⟨decl', hdecl', hsame⟩ := List.mem_map.mp hface
    have hfound : decl.name = name := by simpa using List.find?_some hfind
    have hname : decl'.name = name := (congrArg Prod.fst hsame).trans hfound
    have hfind' := find?_of_nodup (·.name) h.nodup' hdecl'
    rw [hname] at hfind'
    rw [hfind']
    exact .some hsame

end SharesFrame

/-! ### What bodies can refer to -/

theorem globals_declare (p : Program) (moduleName : String) (log : DiagnosticLog) :
    (p.declare moduleName log).1.globals =
      (p.globals.foldl UnitState.addGlobal (p.laidOut moduleName log)).globals := by
  refine List.foldlRecOn (motive := fun acc : UnitState × List DeclaredFunction =>
    acc.1.globals = (p.globals.foldl UnitState.addGlobal (p.laidOut moduleName log)).globals)
    p.functions UnitState.addFunction rfl ?_
  rintro ⟨s, declared⟩ hs decl -
  rcases s.addFunction_cases declared decl with ⟨-, e, -, heq⟩ | ⟨-, d, log, -, -, -, heq⟩
  all_goals
    rw [heq]
    exact hs

/-- The table of structs is complete before the first body. -/
theorem Turn.structs_eq (h : p.Turn options log s d body) :
    s.structs = (p.laidOut options.moduleName log).structs := by
  obtain ⟨-, before, after, -, rfl⟩ := h
  exact (agrees_bodies before).structs

namespace SharesFrame

/-- Signatures with the same face stand for the same types. -/
theorem lookup_declare (h : p.SharesFrame p') (moduleName : String) (log : DiagnosticLog)
    (name : String) : Option.Rel Signature.SameFace
      ((p.declare moduleName log).1.functions.lookup name)
      ((p'.declare moduleName log).1.functions.lookup name) := by
  rw [p.lookup_declare, p'.lookup_declare, h.laidOut_eq]
  obtain ⟨hfind, hfind'⟩ | ⟨decl, decl', hfind, hfind', hface⟩ :=
    optionRel_cases (h.find?_face name)
  · rw [hfind, hfind']
    exact Signature.sameFace_rel _
  · rw [hfind, hfind']
    have hparams : decl'.params.map (·.type) = decl.params.map (·.type) :=
      congrArg (·.2.1) hface
    have hreturn : decl'.returnType = decl.returnType := congrArg (·.2.2) hface
    refine .some ?_
    dsimp only
    rw [hparams, hreturn]
    rfl

/-- Whenever it is the turn of a function, the same can be referred to in both programs. -/
theorem fits (h : p.SharesFrame p') {d' : DeclaredFunction} {body' : Statement}
    (hturn : p.Turn options log s d body) (hturn' : p'.Turn options log s' d' body') :
    Comparison.Fits ⟨s.log.entries, s'.log.entries, fun name => ∀ number, name ≠ nameOf number,
      False⟩ s s' where
  before := rfl
  before' := rfl
  exact := False.elim
  structs := by rw [hturn'.structs_eq, hturn.structs_eq, h.laidOut_eq]
  globals := by
    rw [hturn'.globals_eq, hturn.globals_eq, globals_declare, globals_declare, h.laidOut_eq,
      h.globals]
  functions name := by
    rw [hturn'.functions_eq, hturn.functions_eq]
    exact h.lookup_declare options.moduleName log name
  places entry hentry := by
    obtain ⟨decl, hdecl, hkey⟩ := hturn.exists_accepted hentry
    have hstorage : Storage.global decl.name = entry.2.storage := congrArg (·.2.1) hkey
    rw [← hstorage]
    exact h.unnumbered decl (accepted_subset _ _ hdecl)

end SharesFrame

/-! ### The constants of a module -/

/-- What holds a text is the constant of its number. -/
theorem exists_constant_of_text (p : Program) (options : LoweringOptions) (log : DiagnosticLog)
    {g : GlobalVariable} {text : String} (hg : g ∈ (p.generate options log).1.globals)
    (htext : text? g = some text) : ∃ number : Nat, g.name = nameOf number ∧
      (texts (p.generate options log).1.globals)[number]? = some text := by
  have hmem : g ∈ (texts (p.generate options log).1.globals).mapIdx constant := by
    rw [← (p.inventory_generate options log).constants]
    exact List.mem_filter.mpr ⟨hg, by rw [htext]; rfl⟩
  obtain ⟨number, hnumber, rfl⟩ := List.mem_mapIdx.mp hmem
  refine ⟨number, rfl, ?_⟩
  rw [List.getElem?_eq_getElem hnumber]
  exact htext

/-- Under the name of anything else there is no text. -/
theorem textAt?_eq_none (p : Program) (options : LoweringOptions) (log : DiagnosticLog)
    {name : String} (h : ∀ number, name ≠ nameOf number) :
    (p.generate options log).1.textAt? name = none := by
  unfold CodeModule.textAt?
  cases hfind : (p.generate options log).1.global? name with
  | none => rfl
  | some g =>
    cases htext : text? g with
    | none => exact htext
    | some text =>
      obtain ⟨number, hnumber, -⟩ :=
        p.exists_constant_of_text options log (List.mem_of_find?_eq_some hfind) htext
      have hname : g.name = name := by simpa using List.find?_some hfind
      exact absurd (hname.symm.trans hnumber) (h number)

/-- Under the name of a number there is the text of that number. -/
theorem SharesFrame.textAt?_nameOf (h : p.SharesFrame p') (options : LoweringOptions)
    (log : DiagnosticLog) {number : Nat} {text : String}
    (hindex : (texts (p.generate options log).1.globals).idxOf? text = some number) :
    (p.generate options log).1.textAt? (nameOf number) = some text := by
  have hinventory := p.inventory_generate options log
  obtain ⟨hlt, heq, -⟩ := List.findIdx?_eq_some_iff_getElem.mp hindex
  have hmem : constant number text ∈ (p.generate options log).1.globals := by
    refine List.mem_of_mem_filter (p := fun g => (text? g).isSome) ?_
    rw [hinventory.constants]
    refine List.mem_mapIdx.mpr ⟨number, hlt, ?_⟩
    rw [beq_iff_eq.mp heq]
  unfold CodeModule.textAt?
  cases hfind : (p.generate options log).1.global? (nameOf number) with
  | none => exact absurd (List.find?_eq_none.mp hfind _ hmem) (by simp [constant])
  | some g =>
    have hg := List.mem_of_find?_eq_some hfind
    have hname : g.name = nameOf number := by simpa using List.find?_some hfind
    cases htext : text? g with
    | none =>
      -- Then it is a variable of the program, which has another name.
      have hnames : (p.acceptedGlobals options.moduleName log).map (·.name) =
          ((p.generate options log).1.globals.filter fun g => (text? g).isNone).map (·.name) :=
        map_eq_of_forall₂ hinventory.globals fun _ _ henters => henters.name.symm
      have hvariable : g.name ∈ (p.acceptedGlobals options.moduleName log).map (·.name) := by
        rw [hnames]
        exact List.mem_map_of_mem (List.mem_filter.mpr ⟨hg, by rw [htext]; rfl⟩)
      obtain ⟨decl, hdecl, hdeclname⟩ := List.mem_map.mp hvariable
      exact absurd (hdeclname.trans hname) (h.unnumbered decl (accepted_subset _ _ hdecl) number)
    | some other =>
      obtain ⟨number', hname', hother⟩ := p.exists_constant_of_text options log hg htext
      obtain rfl := nameOf_injective (hname.symm.trans hname')
      rw [List.getElem?_eq_getElem hlt, beq_iff_eq.mp heq] at hother
      exact htext.trans hother.symm

/-- Values that belong together are spelled alike. -/
theorem SharesFrame.spellValue_eq (h : p.SharesFrame p') {c : Comparison} {w : PoolTexts}
    (hshared : ∀ name, c.shared name → ∀ number, name ≠ nameOf number)
    (hleft : w.left <+: texts (p.generate options log).1.globals)
    (hright : w.right <+: texts (p'.generate options log).1.globals) {v v' : Value}
    (hv : c.Like w v v') :
    (p'.generate options log).1.spellValue v' = (p.generate options log).1.spellValue v := by
  cases hv with
  | same hfixed =>
    have hnone : ∀ q : Program, (q.generate options log).1.spellValue v = v := fun q =>
      CodeModule.spellValue_of_ne fun name hname =>
        q.textAt?_eq_none options log (hshared name (hfixed name hname))
    rw [hnone, hnone]
  | literal hnumber hnumber' =>
    have htext := h.textAt?_nameOf options log (Comparison.idxOf?_of_isPrefix hleft hnumber)
    have htext' := h.symm.textAt?_nameOf options log (Comparison.idxOf?_of_isPrefix hright hnumber')
    rw [CodeModule.spellValue, CodeModule.spellValue, htext, htext']

/-! ### Turns -/

/-- In the module, a function with a body is what its body comes to, or it is only declared. -/
theorem Turn.exists_finished (h : p.Turn options log s d body) :
    ∃ f, (s.lowerBody d body).builder.function = some f ∧
      (p.generate options log).1.function? d.decl.name =
        some (if f.finalize.fault? = none then f.finalize else d.declaration) := by
  obtain ⟨f, -, -, hf, ⟨blocks, hsignature⟩, -⟩ :=
    exists_draft_lowerBody (h.sound.rooted.environment d) body
  have hname : f.finalize.name = d.decl.name := by rw [hsignature]; rfl
  refine ⟨f, hf, ?_⟩
  rw [h.generate_function?]
  cases hfault : f.finalize.fault? with
  | none =>
    rw [addBody_of_sound hf hfault, if_pos rfl]
    exact (CodeModule.function?_replaceFunction ..).trans (if_pos hname)
  | some fault =>
    rw [addBody_of_fault hf hfault, if_neg (by simp)]
    exact h.function?_eq

/-- A function with the same body comes to the same code in both programs, up to the numbers of
string literals. -/
theorem SharesFrame.spell_eq (h : p.SharesFrame p') (hturn : p.Turn options log s d body)
    (hturn' : p'.Turn options log s' d body) :
    ∃ f f', (p.generate options log).1.function? d.decl.name = some f ∧
      (p'.generate options log).1.function? d.decl.name = some f' ∧
      (p'.generate options log).1.spell f' = (p.generate options log).1.spell f := by
  obtain ⟨w, -, hcoupled⟩ := (h.fits hturn hturn').exists_coupled d body
  obtain ⟨f, hf, hfound⟩ := hturn.exists_finished
  obtain ⟨f', hf', hfound'⟩ := hturn'.exists_finished
  have hlike := hcoupled.builder.function
  rw [hf, hf', Option.rel_some_some] at hlike
  rw [hlike.finalize.fault?] at hfound'
  refine ⟨_, _, hfound, hfound', ?_⟩
  split
  · have hleft := hturn.isPrefix_generate.filterMap text?
    have hright := hturn'.isPrefix_generate.filterMap text?
    rw [← texts, hcoupled.left, ← texts] at hleft
    rw [← texts, hcoupled.right, ← texts] at hright
    exact hlike.finalize.mapValues fun _ _ hv => h.spellValue_eq (fun _ => id) hleft hright hv
  · rfl

/-- The same is reported about the body in both programs. -/
theorem SharesFrame.exists_reported (h : p.SharesFrame p') (hturn : p.Turn options log s d body) :
    ∃ reported, ∀ s', p.Turn options log s' d body ∨ p'.Turn options log s' d body →
      (s'.addBody options d body).log.entries = s'.log.entries ++ reported := by
  obtain ⟨reported, hreported⟩ : ∃ reported,
      (s.addBody options d body).log.entries = s.log.entries ++ reported := by
    obtain ⟨_, _, _, -, -, -, hlog, -⟩ := (h.refl.fits hturn hturn).exists_reported d body
    exact ⟨_, hlog options⟩
  refine ⟨reported, fun s' hturn' => ?_⟩
  have hfits : ∃ c : Comparison, c.Fits s s' :=
    hturn'.elim (fun ht => ⟨_, h.refl.fits hturn ht⟩) fun ht => ⟨_, h.fits hturn ht⟩
  obtain ⟨c, hfits⟩ := hfits
  obtain ⟨_, _, _, -, -, -, hlog, hlog'⟩ := hfits.exists_reported d body
  rw [hlog' options, ← List.append_cancel_left (hreported.symm.trans (hlog options))]

theorem SharesFrame.mem_declare (h : p.SharesFrame p') (hdecl : decl ∈ p.functions)
    (moduleName : String) (log : DiagnosticLog) :
    p.declaredAs moduleName log decl ∈ (p.declare moduleName log).2 := by
  rw [p.declared_eq, firstsBy_of_nodup _ h.nodup]
  exact List.mem_map_of_mem hdecl

/-- Functions are lowered in isolation. In programs that differ in the bodies and the order of
other functions at most, a function comes to the same code once the addresses of string constants
are replaced by their texts, and the same is reported about its body, be it an error or a fault. -/
theorem functions_isolated (h : p.SharesFrame p') (hdecl : decl ∈ p.functions)
    (hdecl' : decl ∈ p'.functions) (options : LoweringOptions) (log : DiagnosticLog) :
    (∃ f f', (p.generate options log).1.function? decl.name = some f ∧
      (p'.generate options log).1.function? decl.name = some f' ∧
      (p'.generate options log).1.spell f' = (p.generate options log).1.spell f) ∧
    ∀ body, decl.body = some body → ∃ d : DeclaredFunction, d.decl = decl ∧
      (∃ s, p.Turn options log s d body) ∧ (∃ s, p'.Turn options log s d body) ∧
      ∃ reported, ∀ s, p.Turn options log s d body ∨ p'.Turn options log s d body →
        (s.addBody options d body).log.entries = s.log.entries ++ reported := by
  have hd := h.mem_declare hdecl options.moduleName log
  have hd' := h.symm.mem_declare hdecl' options.moduleName log
  rw [h.declaredAs_eq] at hd'
  constructor
  · cases hbody : decl.body with
    | none => exact ⟨_, _, function?_of_no_body hd hbody, function?_of_no_body hd' hbody, rfl⟩
    | some body =>
      obtain ⟨s, hturn⟩ := exists_turn hd hbody
      obtain ⟨s', hturn'⟩ := exists_turn hd' hbody
      exact h.spell_eq hturn hturn'
  · intro body hbody
    obtain ⟨s, hturn⟩ := exists_turn hd hbody
    exact ⟨_, rfl, ⟨s, hturn⟩, exists_turn hd' hbody, h.exists_reported hturn⟩

/-- Print a text. -/
def say (text : String) : Statement :=
  .expression none (.call none "printf" [.literal none (.string text)])

/-- A function that prints a text. -/
def greet : FunctionDecl Statement := ⟨"greet", [], .named "void", some (say "hello"), none, none⟩

/-- A program with a function that prints another text first. -/
def polite : Program where
  items := [.function ⟨"part", [], .named "i32", some (.block none
      [say "bye", .ret none (some (.literal none (.number "0")))]), none, none⟩,
    .function greet]

/-- A program in which that function is not kept. -/
def abrupt : Program where
  items := [.function greet,
    .function ⟨"part", [], .named "i32", some (.block none []), none, none⟩]

/-- The code of the function differs in the number of its text only. -/
theorem functions_isolated_greet :
    ∃ f f', (polite.generate .standard .empty).1.function? "greet" = some f ∧
      (abrupt.generate .standard .empty).1.function? "greet" = some f' ∧ f' ≠ f ∧
      (abrupt.generate .standard .empty).1.spell f' =
        (polite.generate .standard .empty).1.spell f := by
  have hframe : polite.SharesFrame abrupt := {
    interfaces := rfl
    structs := rfl
    globals := rfl
    faces := by
      have hperm : (abrupt.functions.map (·.face)).Perm (polite.functions.map (·.face)) :=
        .swap ..
      exact fun _ => hperm.mem_iff
    nodup := by decide
    nodup' := by decide
    unnumbered := fun _ hdecl => by cases hdecl }
  have hpolite : greet ∈ polite.functions := List.mem_cons_of_mem _ (List.mem_cons_self ..)
  have habrupt : greet ∈ abrupt.functions := List.mem_cons_self ..
  obtain ⟨⟨f, f', hf, hf', hspell⟩, -⟩ := functions_isolated hframe hpolite habrupt .standard .empty
  refine ⟨f, f', hf, hf', ?_, hspell⟩
  rintro rfl
  exact absurd (hf.trans hf'.symm) (by decide +kernel)

end Program

end SsaLowering
