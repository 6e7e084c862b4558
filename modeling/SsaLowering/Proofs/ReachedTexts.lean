import SsaLowering.Proofs.Courses
import SsaLowering.Proofs.GlobalDeclarations

/-!
# Texts that are reached

The lowering of a body adds the texts of the string literals that it visits to the pool, and
nothing else. At a visit to a literal, the constant of its text is there, and it stays at its place
from then on.
-/

namespace SsaLowering

open StringPool

namespace StringPool

variable {globals globals' : List GlobalVariable} {text : String}

theorem texts_subset (h : globals <+: globals') : texts globals ⊆ texts globals' := by
  obtain ⟨more, rfl⟩ := h
  intro text htext
  rw [texts, List.filterMap_append]
  exact List.mem_append_left _ htext

end StringPool

namespace Visit

variable {env : Environment} {context : FunctionContext} {v w : Visit} {s s' : BodyState}
  {location : Option Location} {text : String}

/-- A string literal is visited. -/
def Reaches (env : Environment) (context : FunctionContext) (v : Visit) (text : String) : Prop :=
  ∃ w location, v.Contains env context w ∧ w.node = .term (.literal location (.string text))

theorem Move.globals_cases (h : v.Move env s s') : s'.globals = s.globals ∨
    ∃ location text, v.node = .term (.literal location (.string text)) ∧
      s'.globals = (StringPool.intern s.globals text).2 := by
  cases h with
  | step hstep => cases hstep <;> exact .inl rfl
  | intern hnode => exact .inr ⟨_, _, hnode, rfl⟩
  | @bind _ decl source type initial =>
    refine .inl ?_
    rcases Lower.exec_bindVariable decl source type initial s with
      ⟨-, heq⟩ | ⟨b, -, -, heq | ⟨b', -, heq⟩⟩
    all_goals rw [heq]

theorem Move.interned (h : v.Move env s s') : Interned s.globals s'.globals := by
  rcases h.globals_cases with heq | ⟨location, text, -, heq⟩
  all_goals rw [heq]
  · exact .refl
  · exact .step text .refl

theorem interned_after (v : Visit) : Interned v.state.globals (v.after env context).globals :=
  v.rel_after (S := fun a b => Interned a.globals b.globals) (fun _ => .refl)
    (fun _ _ _ => .trans) fun _ _ _ _ hmove => hmove.interned

/-- Up to a visit inside, and from there to the end. -/
theorem interned_inside (hw : v.Contains env context w) :
    Interned v.state.globals w.state.globals ∧
      Interned (w.after env context).globals (v.after env context).globals :=
  rel_inside (S := fun a b => Interned a.globals b.globals) (fun _ => .refl)
    (fun _ _ _ => .trans) hw fun _ _ _ _ hmove => hmove.interned

/-- The value of a string literal is the address of its constant. -/
theorem exec_literal (hnode : v.node = .term (.literal location (.string text))) :
    exec (Lower.lowerTerm env (.literal location (.string text))) v.state =
        (.ok (stringValue (intern v.state.globals text).1), v.after env context) ∧
      (v.after env context).globals = (intern v.state.globals text).2 := by
  rw [after, hnode]
  exact ⟨rfl, rfl⟩

/-- The texts in the pool are those that were there, and those that were reached. -/
theorem mem_texts_after (v : Visit) : text ∈ texts (v.after env context).globals ↔
    text ∈ texts v.state.globals ∨ v.Reaches env context text := by
  constructor
  · refine v.rel_after (S := fun a b => text ∈ texts b.globals →
      text ∈ texts a.globals ∨ v.Reaches env context text) (fun _ => .inl)
      (fun _ _ _ hab hbc hc => (hbc hc).elim hab .inr) fun w hw a b hmove htext => ?_
    rcases hmove.globals_cases with heq | ⟨location, other, hnode, heq⟩
    · exact .inl (heq ▸ htext)
    · rw [heq, mem_texts_intern] at htext
      rcases htext with rfl | htext
      · exact .inr ⟨w, location, hw, hnode⟩
      · exact .inl htext
  · rintro (htext | ⟨w, location, hw, hnode⟩)
    · exact texts_subset v.interned_after.isPrefix_of htext
    · refine texts_subset (interned_inside hw).2.isPrefix_of ?_
      rw [(exec_literal hnode).2, mem_texts_intern]
      exact .inl rfl

end Visit

end SsaLowering
