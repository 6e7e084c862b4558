import SsaLowering.Proofs.Body
import SsaLowering.Proofs.Edits

/-!
# Calls of a builder

Whoever uses a builder may call it as he likes: with labels of his own, in blocks that are long
finished, in any order, and going on after failures. Each call makes edits, or begins or ends a
function, so that the function under construction stays tidy all the time.
-/

namespace SsaLowering

/-- A call of a builder with its arguments. -/
inductive BuilderCall where
  | start (f : FunctionDef)
  | finish
  | newTemp
  | newLabel
  | createBlock (label : Nat) (hint : String)
  | appendBlock (hint : String)
  | switchTo (label : Nat)
  | entryAlloca (type : MachineType)
  | binary (op : Opcode) (lhs rhs : Value) (type : MachineType)
  | load (ptr : Value) (type : MachineType)
  | store (value ptr : Value) (type : MachineType)
  | fieldAddress (base : MachineType) (ptr : Value) (index : Nat)
  | extract (aggregate : Value) (type : MachineType) (index : Nat) (fieldType : MachineType)
  | call (callee : Value) (type : MachineType) (args : List (MachineType × Value))
  | ret (value : Option (MachineType × Value))
  | jump (target : Nat)
  | branch (condition : Value) (ifTrue ifFalse : Nat)
  | phi (incoming : List (Value × Nat)) (type : MachineType)
  | convert (op : Conversion) (value : Value) (source target : MachineType)
  | unreachable

namespace BuilderCall

/-- What a call does. Its result, if it has one, is for the caller only. -/
def action : BuilderCall → Build Unit
  | .start f => set (FunctionBuilder.start f)
  | .finish => modify fun b => b.finish.2
  | .newTemp => discard Build.newTemp
  | .newLabel => discard Build.newLabel
  | .createBlock label hint => Build.createBlock label hint
  | .appendBlock hint => discard (Build.appendBlock hint)
  | .switchTo label => Build.switchTo label
  | .entryAlloca type => discard (Build.entryAlloca type)
  | .binary op lhs rhs type => discard (Build.binary op lhs rhs type)
  | .load ptr type => discard (Build.load ptr type)
  | .store value ptr type => Build.store value ptr type
  | .fieldAddress base ptr index => discard (Build.fieldAddress base ptr index)
  | .extract aggregate type index fieldType =>
    discard (Build.extract aggregate type index fieldType)
  | .call callee type args => discard (Build.call callee type args)
  | .ret value => Build.ret value
  | .jump target => Build.jump target
  | .branch condition ifTrue ifFalse => Build.branch condition ifTrue ifFalse
  | .phi incoming type => discard (Build.phi incoming type)
  | .convert op value source target => discard (Build.convert op value source target)
  | .unreachable => Build.unreachable

/-- A call begins a function, ends one, or is careful with the one that there is. -/
theorem action_cases (call : BuilderCall) :
    (∃ f, call = .start f) ∨ call = .finish ∨ Build.Careful call.action := by
  cases call with
  | start f => exact .inl ⟨f, rfl⟩
  | finish => exact .inr (.inl rfl)
  | newTemp => exact .inr (.inr (Build.careful_newTemp.map _))
  | newLabel => exact .inr (.inr (Build.careful_newLabel.map _))
  | createBlock label hint => exact .inr (.inr (Build.careful_createBlock label hint))
  | appendBlock hint => exact .inr (.inr ((Build.careful_appendBlock hint).map _))
  | switchTo label => exact .inr (.inr (Build.careful_switchTo label))
  | entryAlloca type => exact .inr (.inr ((Build.careful_entryAlloca type).map _))
  | call callee type args => exact .inr (.inr ((Build.careful_call callee type args).map _))
  | store | ret | jump | branch | unreachable =>
    exact .inr (.inr (Build.careful_emit rfl rfl))
  | binary | load | fieldAddress | extract | phi | convert =>
    exact .inr (.inr ((Build.careful_define fun _ => ⟨rfl, rfl⟩).map _))

end BuilderCall

namespace FunctionBuilder

variable {b : FunctionBuilder}

/-- The builder after a call, whether that succeeds or not. -/
def after (b : FunctionBuilder) (call : BuilderCall) : FunctionBuilder := (exec call.action b).2

/-- The builder after some calls. -/
def run (b : FunctionBuilder) (calls : List BuilderCall) : FunctionBuilder := calls.foldl after b

/-- A call keeps the function under construction tidy. -/
theorem Sound.after (h : b.Sound) (call : BuilderCall) : (b.after call).Sound := by
  rcases call.action_cases with ⟨f, rfl⟩ | rfl | hcareful
  · exact sound_start f
  · exact ⟨fun _ => rfl, nofun⟩
  · exact h.edits (hcareful b).1

/-- So do any number of calls. -/
theorem Sound.run (h : b.Sound) (calls : List BuilderCall) : (b.run calls).Sound := by
  induction calls generalizing b with
  | nil => exact h
  | cons call rest ih => exact ih (h.after call)

/-- A call that fails leaves the function as it was. -/
theorem function_after_of_error (call : BuilderCall) {e : BuildFault}
    (h : (exec call.action b).1 = .error e) : (b.after call).function = b.function := by
  rcases call.action_cases with ⟨f, rfl⟩ | rfl | hcareful
  · cases h
  · cases h
  · exact (hcareful b).2 e h

/-- However a builder is called after the start of a function, its current block is a block of the
function under construction, the blocks have different labels, each of them has a terminator at
its end at most, the results are different temporaries and no parameters, and a call that fails
does not change the function. -/
theorem calls_keep_invariants (f : FunctionDef) (calls : List BuilderCall) :
    let b := (start f).run calls
    (∀ l, b.current = some l → ∃ g, b.function = some g ∧ l ∈ g.labels) ∧
      (∀ g, b.function = some g → g.labels.Nodup ∧
        (∀ c ∈ g.blocks, ∀ i ∈ c.body.dropLast, i.isTerminator = false) ∧
        g.results.Nodup ∧ ∀ t ∈ g.results, t ∉ g.parameters) ∧
      ∀ call e, (exec call.action b).1 = .error e → (b.after call).function = b.function := by
  intro b
  have hsound : b.Sound := (sound_start f).run calls
  refine ⟨fun l hl => ?_, fun g hg => ?_, fun call e => function_after_of_error call⟩
  · cases hg : b.function with
    | none => simp [hsound.1 hg] at hl
    | some g => exact ⟨g, rfl, (hsound.2 g hg).current l hl⟩
  · have htidy := hsound.2 g hg
    refine ⟨htidy.labels_nodup, fun c hc => htidy.terminator_last hc, htidy.results_nodup, ?_⟩
    intro t ht hparam
    have hfirst := (htidy.results_drawn t ht).1
    have hbelow := lt_firstTemp hparam
    omega

-- The label of the third block is taken, and the entry is ended before it gets its slot.
example : ((start (.declaration "f" .void [] false none)).run
      [.appendBlock "entry", .ret none, .createBlock 1 "next", .appendBlock "third", .switchTo 0,
        .entryAlloca .bool]).function.map (·.blocks) =
    some [⟨0, some "entry", [.alloca 0 .bool, .ret none]⟩, ⟨1, some "next", []⟩] := by decide

end FunctionBuilder

end SsaLowering
