import Mathlib.Data.List.Nodup
import SsaLowering.Program.Input
import SsaLowering.Proofs.JsonText

/-!
# The text of an arena

Every part of an arena is read back from what was written for it, and what was written has
only plain numerals and string literals. So the text of an arena is read as the arena, and
what the parser makes of it depends on nothing but whether the handles can be followed.
-/

namespace SsaLowering

namespace Json

/-! ## Plain values -/

theorem plain_null : Json.null.Plain := by simp [Plain, tokens, Token.Plain]

theorem plain_bool (b : Bool) : (Json.bool b).Plain := by simp [Plain, tokens, Token.Plain]

theorem plain_string (text : String) : (Json.string text).Plain := by
  simp [Plain, tokens, Token.Plain]

theorem plain_ofNat (n : Nat) : (ofNat n).Plain := by
  simp only [Plain, ofNat, tokens, List.mem_singleton, forall_eq]
  exact ⟨n, rfl⟩

theorem plain_array {items : List Json} (h : ∀ item ∈ items, item.Plain) :
    (Json.array items).Plain := by
  have hitems : ∀ t ∈ itemTokens items, t.Plain := by
    induction items with
    | nil => simp [itemTokens]
    | cons item rest ih =>
      have hrest := ih fun j hj => h j (.tail _ hj)
      have hitem := h item (.head _)
      cases rest with
      | nil => exact hitem
      | cons next rest =>
        simp only [itemTokens, List.forall_mem_append, List.forall_mem_cons]
        exact ⟨hitem, trivial, hrest⟩
  simp only [Plain, tokens, List.forall_mem_append, List.forall_mem_cons]
  exact ⟨⟨trivial, hitems⟩, trivial, by simp⟩

theorem plain_object {fields : List (String × Json)} (h : ∀ field ∈ fields, field.2.Plain) :
    (Json.object fields).Plain := by
  have hfields : ∀ t ∈ fieldTokens fields, t.Plain := by
    induction fields with
    | nil => simp [fieldTokens]
    | cons field rest ih =>
      have hrest := ih fun j hj => h j (.tail _ hj)
      have hvalue := h field (.head _)
      cases rest with
      | nil =>
        simp only [fieldTokens, List.forall_mem_cons]
        exact ⟨trivial, trivial, hvalue⟩
      | cons next rest =>
        simp only [fieldTokens, List.forall_mem_append, List.forall_mem_cons]
        exact ⟨⟨trivial, trivial, hvalue⟩, trivial, hrest⟩
  simp only [Plain, tokens, List.forall_mem_append, List.forall_mem_cons]
  exact ⟨⟨trivial, hfields⟩, trivial, by simp⟩

theorem plain_choice (name : String) {value : Json} (h : value.Plain) :
    (choice name value).Plain :=
  plain_object (by simpa using h)

/-! ## Formats -/

/-- What is written for a value is plain, and the value is read back from it. -/
structure Format {α : Type} (write : α → Json) (read : Json → Option α) : Prop where
  plain : ∀ a, (write a).Plain
  read_write : ∀ a, read (write a) = some a

section Formats
variable {α : Type} {write : α → Json} {read : Json → Option α}

theorem Format.list (h : Format write read) : Format (ofList write) (list? read) where
  plain as := plain_array (by simpa using fun a _ => h.plain a)
  read_write as := by
    have hmap : (as.map write).mapM read = some as := by
      induction as with
      | nil => rfl
      | cons a as ih => simp [h.read_write a, ih]
    exact hmap

/-- An absent value is told from the others, since none of them is written as null. -/
theorem Format.option (h : Format write read) (hnull : ∀ a, write a ≠ .null) :
    Format (ofOption write) (optional? read) where
  plain
    | none => plain_null
    | some a => h.plain a
  read_write
    | none => rfl
    | some a => by
      have heq : optional? read (write a) = (read (write a)).map some := by
        cases hj : write a with
        | null => exact absurd hj (hnull a)
        | _ => rfl
      rw [ofOption, heq, h.read_write a, Option.map_some]

end Formats

theorem format_text : Format Json.string text? := ⟨plain_string, fun _ => rfl⟩

theorem word?_ofNat (n : UInt32) : (ofNat n.toNat).word? = some n.toNat := by
  have hall : ∀ d ∈ Nat.toDigits 10 n.toNat, d.isDigit := fun d hd =>
    Nat.isDigit_of_mem_toDigits (by decide) (by decide) hd
  have hvalue : digitsValue (Nat.toDigits 10 n.toNat) = n.toNat :=
    Nat.ofDigitChars_toDigits (by decide) (by decide)
  simp only [word?, ofNat, natBelow?, Nat.toString_eq_ofList_toDigits, String.toList_ofList,
    List.all_eq_true.mpr hall, hvalue, n.toNat_lt_size, decide_true, Bool.and_true, if_true]

theorem filter_name {fields : List (String × Json)} (hnodup : (fields.map Prod.fst).Nodup)
    {field : String × Json} (hmem : field ∈ fields) :
    fields.filter (·.1 == field.1) = [field] := by
  induction fields with
  | nil => cases hmem
  | cons first rest ih =>
    rw [List.map_cons, List.nodup_cons] at hnodup
    obtain ⟨hnew, hnodup⟩ := hnodup
    rcases List.mem_cons.mp hmem with rfl | hmem
    · have hrest : rest.filter (·.1 == field.1) = [] := by
        simp only [List.filter_eq_nil_iff, beq_iff_eq]
        exact fun other hother heq => hnew (heq ▸ List.mem_map_of_mem hother)
      rw [List.filter_cons_of_pos (by simp), hrest]
    · have hne : first.1 ≠ field.1 := fun heq => hnew (heq ▸ List.mem_map_of_mem hmem)
      rw [List.filter_cons_of_neg (by simpa using hne), ih hnodup hmem]

/-- The fields of a record are found by their names. -/
theorem record?_object {fields : List (String × Json)} {names : List String} {droppable : Nat}
    (hnames : fields.map Prod.fst = names) (hnodup : names.Nodup) :
    record? names droppable (.object fields) = some (fields.map Prod.snd) := by
  subst hnames
  have hfield : ∀ field ∈ fields, field? fields field.1 = some field.2 := fun field hmem => by
    simp only [field?, filter_name hnodup hmem]
  have hfields : ∀ part : List (String × Json), (∀ field ∈ part, field ∈ fields) →
      (part.map Prod.fst).mapM (field? fields) = some (part.map Prod.snd) := by
    intro part hpart
    induction part with
    | nil => rfl
    | cons field rest ih =>
      simp [hfield field (hpart field (.head _)), ih fun f hf => hpart f (.tail _ hf)]
  exact hfields fields fun _ h => h

/-- A record is written field by field, and all of it is made from the values of its fields. -/
theorem Format.record {α : Type} {fields : α → List (String × Json)} {names : List String}
    {droppable : Nat} {build : List Json → Option α} (hnodup : names.Nodup)
    (hnames : ∀ a, (fields a).map Prod.fst = names)
    (hplain : ∀ a, ∀ field ∈ fields a, field.2.Plain)
    (hbuild : ∀ a, build ((fields a).map Prod.snd) = some a) :
    Format (fun a => .object (fields a)) (fun j => record? names droppable j >>= build) where
  plain a := plain_object (hplain a)
  read_write a := by
    rw [record?_object (hnames a) hnodup]
    exact hbuild a

/-- The members of a plain enumeration have different names. -/
theorem named?_string {α : Type} {all : List α} {name : α → String}
    (hnodup : (all.map name).Nodup) {a : α} (hmem : a ∈ all) :
    named? all name (.string (name a)) = some a := by
  obtain ⟨b, hb⟩ : ∃ b, all.find? (name · == name a) = some b :=
    Option.isSome_iff_exists.mp (List.find?_isSome.mpr ⟨a, hmem, by simp⟩)
  have hname : name b = name a := by simpa using List.find?_some hb
  have heq : b = a := List.inj_on_of_nodup_map hnodup (List.mem_of_find?_eq_some hb) hmem hname
  simp [named?, choice?, isBare, hb, heq]

end Json

open Json

/-! ## The parts of an arena -/

theorem ExprId.format : Format ExprId.toJson ExprId.ofJson? :=
  ⟨fun id => plain_ofNat _, fun id => by simp [ExprId.toJson, ExprId.ofJson?, word?_ofNat]⟩

theorem StmtId.format : Format StmtId.toJson StmtId.ofJson? :=
  ⟨fun id => plain_ofNat _, fun id => by simp [StmtId.toJson, StmtId.ofJson?, word?_ofNat]⟩

theorem BinaryOp.format : Format BinaryOp.toJson BinaryOp.ofJson? :=
  ⟨fun _ => plain_string _, fun op => named?_string (by decide) (by cases op <;> decide)⟩

theorem UnaryOp.format : Format UnaryOp.toJson UnaryOp.ofJson? :=
  ⟨fun _ => plain_string _, fun op => named?_string (by decide) (by cases op <;> decide)⟩

theorem Location.format : Format Location.toJson Location.ofJson? := by
  refine .record (by decide) (fun _ => rfl) (fun l => ?_) fun l => ?_
  · simp [plain_string, plain_ofNat]
  · simp [text?, word?_ofNat]

theorem Location.option_format :
    Format (ofOption Location.toJson) (optional? Location.ofJson?) :=
  Location.format.option fun _ => Json.noConfusion

theorem ExprId.option_format : Format (ofOption ExprId.toJson) (optional? ExprId.ofJson?) :=
  ExprId.format.option fun _ => Json.noConfusion

theorem StmtId.option_format : Format (ofOption StmtId.toJson) (optional? StmtId.ofJson?) :=
  StmtId.format.option fun _ => Json.noConfusion

theorem option_format_text : Format (ofOption Json.string) (optional? text?) :=
  format_text.option fun _ => Json.noConfusion

theorem SourceType.format : Format SourceType.toJson SourceType.ofJson? := by
  refine .record (by decide) (fun _ => rfl) (fun t => ?_) fun t => ?_
  · simp [plain_string, plain_bool]
  · simp [text?, bool?]

theorem Literal.format : Format Literal.toJson Literal.ofJson? where
  plain
    | .number _ | .string _ => plain_choice _ (plain_string _)
    | .bool _ => plain_choice _ (plain_bool _)
    | .null => plain_string _
  read_write value := by cases value <;> rfl

theorem ExprNode.format : Format ExprNode.toJson ExprNode.ofJson? where
  plain node := by
    cases node <;>
      simp [toJson, plain_choice, plain_object, plain_string, Literal.format.plain,
        ExprId.format.plain, ExprId.format.list.plain, BinaryOp.format.plain,
        UnaryOp.format.plain, SourceType.format.plain]
  read_write node := by
    cases node <;>
      simp [toJson, ofJson?, choice, choice?, record?_object, text?,
        Literal.format.read_write, ExprId.format.read_write, ExprId.format.list.read_write,
        BinaryOp.format.read_write, UnaryOp.format.read_write, SourceType.format.read_write]

theorem Expr.format : Format Expr.toJson Expr.ofJson? := by
  refine .record (by decide) (fun _ => rfl) (fun e => ?_) fun e => ?_
  · simp [ExprNode.format.plain, Location.option_format.plain]
  · simp [ExprNode.format.read_write, Location.option_format.read_write]

theorem VariableDecl.format : Format VariableDecl.toJson VariableDecl.ofJson? := by
  refine .record (by decide) (fun _ => rfl) (fun decl => ?_) fun decl => ?_
  · simp [plain_string, plain_bool, SourceType.format.plain, ExprId.option_format.plain,
      Location.option_format.plain]
  · simp [text?, bool?, SourceType.format.read_write, ExprId.option_format.read_write,
      Location.option_format.read_write]

theorem StmtNode.format : Format StmtNode.toJson StmtNode.ofJson? where
  plain node := by
    cases node <;>
      simp [toJson, plain_choice, plain_object, ExprId.format.plain, ExprId.option_format.plain,
        StmtId.format.plain, StmtId.option_format.plain, StmtId.format.list.plain,
        VariableDecl.format.plain]
  read_write node := by
    cases node <;>
      simp [toJson, ofJson?, choice, choice?, record?_object,
        ExprId.format.read_write, ExprId.option_format.read_write, StmtId.format.read_write,
        StmtId.option_format.read_write, StmtId.format.list.read_write,
        VariableDecl.format.read_write]

theorem Stmt.format : Format Stmt.toJson Stmt.ofJson? := by
  refine .record (by decide) (fun _ => rfl) (fun s => ?_) fun s => ?_
  · simp [StmtNode.format.plain, Location.option_format.plain]
  · simp [StmtNode.format.read_write, Location.option_format.read_write]

theorem InterfaceDecl.format : Format InterfaceDecl.toJson InterfaceDecl.ofJson? := by
  refine .record (by decide) (fun _ => rfl) (fun decl => ?_) fun decl => ?_
  · simp [plain_string, format_text.list.plain, Location.option_format.plain]
  · simp [text?, format_text.list.read_write, Location.option_format.read_write]

theorem FieldDecl.format : Format FieldDecl.toJson FieldDecl.ofJson? := by
  refine .record (by decide) (fun _ => rfl) (fun field => ?_) fun field => ?_
  · simp [plain_string, plain_bool, SourceType.format.plain]
  · simp [text?, bool?, SourceType.format.read_write]

theorem StructDecl.format : Format StructDecl.toJson StructDecl.ofJson? := by
  refine .record (by decide) (fun _ => rfl) (fun decl => ?_) fun decl => ?_
  · simp [plain_string, option_format_text.plain, FieldDecl.format.list.plain,
      Location.option_format.plain]
  · simp [text?, option_format_text.read_write, FieldDecl.format.list.read_write,
      Location.option_format.read_write]

theorem Parameter.format : Format Parameter.toJson Parameter.ofJson? := by
  refine .record (by decide) (fun _ => rfl) (fun p => ?_) fun p => ?_
  · simp [plain_string, SourceType.format.plain]
  · simp [text?, SourceType.format.read_write]

theorem FunctionDecl.format : Format FunctionDecl.toJson FunctionDecl.ofJson? := by
  refine .record (by decide) (fun _ => rfl) (fun decl => ?_) fun decl => ?_
  · simp [plain_string, Parameter.format.list.plain, SourceType.format.plain,
      StmtId.option_format.plain, option_format_text.plain, Location.option_format.plain]
  · simp [text?, Parameter.format.list.read_write, SourceType.format.read_write,
      StmtId.option_format.read_write, option_format_text.read_write,
      Location.option_format.read_write]

theorem Declaration.format : Format Declaration.toJson Declaration.ofJson? where
  plain
    | .interface decl => plain_choice _ (InterfaceDecl.format.plain decl)
    | .struct decl => plain_choice _ (StructDecl.format.plain decl)
    | .function decl => plain_choice _ (FunctionDecl.format.plain decl)
    | .variable decl => plain_choice _ (VariableDecl.format.plain decl)
  read_write decl := by
    cases decl <;>
      simp [toJson, ofJson?, choice, choice?, InterfaceDecl.format.read_write,
        StructDecl.format.read_write, FunctionDecl.format.read_write,
        VariableDecl.format.read_write]

theorem Arena.format : Format Arena.toJson Arena.ofJson? := by
  refine .record (by decide) (fun _ => rfl) (fun arena => ?_) fun arena => ?_
  · simp [Expr.format.list.plain, Stmt.format.list.plain, Declaration.format.list.plain]
  · simp [Expr.format.list.read_write, Stmt.format.list.read_write,
      Declaration.format.list.read_write]

namespace Arena

/-- The text of an arena is read as the arena. -/
theorem ofText?_write (arena : Arena) : ofText? arena.write = some arena := by
  simp only [ofText?, write, parse?_compact (Arena.format.plain arena), Option.bind_eq_bind,
    Option.bind_some, Arena.format.read_write]

/-- An arena that a text was accepted as is valid. -/
theorem validate_of_parse {text : String} {arena : Arena} (h : parse text = .ok arena) :
    arena.validate = .ok () := by
  unfold parse at h
  split at h
  · cases h
  · split at h
    · next hvalid => cases h; exact hvalid
    · cases h

/-- Reading undoes writing. The text of an arena is accepted as the arena itself if its handles
can be followed, and refused with the message of the check otherwise. What any text was accepted
as is also what its own text is accepted as. -/
theorem parse_write (arena : Arena) :
    parse arena.write = (match arena.validate with
      | .ok () => .ok arena
      | .error fault => .error (.input fault.message)) ∧
    ∀ text, parse text = .ok arena → parse arena.write = .ok arena := by
  have hparse : parse arena.write = (match arena.validate with
      | .ok () => .ok arena
      | .error fault => .error (.input fault.message)) := by
    cases hvalid : arena.validate <;> simp [parse, ofText?_write, hvalid]
  refine ⟨hparse, fun text htext => ?_⟩
  rw [hparse, validate_of_parse htext]

/-- A unit that prints a text with a quote, a line break and a control character in it. -/
def quoting : Arena where
  exprs := #[⟨.literal (.string "a\"b\n\x01"), some ⟨"m.jl", 1, 7⟩⟩,
    ⟨.call "print" [⟨0⟩], none⟩]
  stmts := #[⟨.expression ⟨1⟩, none⟩]
  items := [.function ⟨"main", [], ⟨"void", false⟩, some ⟨0⟩, none, none⟩]

theorem parse_write_quoting :
    quoting.validate = .ok () ∧ parse quoting.write = .ok quoting :=
  have hvalid : quoting.validate = .ok () := by decide
  have haccepted : parse quoting.write = .ok quoting := by
    rw [(parse_write quoting).1, hvalid]
  ⟨hvalid, (parse_write quoting).2 quoting.write haccepted⟩

end Arena

end SsaLowering
