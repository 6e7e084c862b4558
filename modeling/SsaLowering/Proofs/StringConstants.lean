import SsaLowering.Json.Reader
import SsaLowering.Proofs.Inventory

/-!
# String constants

A text is spelled with escapes, from which all its bytes can be read back. Wherever a string
literal is evaluated, in an initializer or in a body, it stands for the constant of its text, and
a text that has none yet gets the next number.
-/

namespace SsaLowering

namespace Value

/-! ## Spelling -/

/-- The bytes that are spelled by some characters. A backslash with two hexadecimal digits behind
it stands for a byte, and any other character for itself. -/
def readBytes : List Char → List UInt8
  | [] => []
  | '\\' :: a :: b :: rest =>
    match Json.hexValue? a, Json.hexValue? b with
    | some high, some low => UInt8.ofNat (high * 16 + low) :: readBytes rest
    | _, _ => String.utf8EncodeChar '\\' ++ readBytes (a :: b :: rest)
  | c :: rest => String.utf8EncodeChar c ++ readBytes rest

/-- The bytes of a byte string as it is spelled in code. The first quote behind the opening one
ends it. -/
def readByteString? (spelling : String) : Option (List UInt8) :=
  match spelling.toList with
  | 'c' :: '"' :: rest =>
    if rest.dropWhile (· != '"') = ['"'] then some (readBytes (rest.takeWhile (· != '"')))
    else none
  | _ => none

theorem readBytes_plain {c : Char} (hc : c ≠ '\\') (rest : List Char) :
    readBytes (c :: rest) = String.utf8EncodeChar c ++ readBytes rest := by
  rw [readBytes]
  rintro a b rest' rfl
  exact absurd rfl hc

theorem readBytes_escaped {a b : Char} {high low : Nat} (ha : Json.hexValue? a = some high)
    (hb : Json.hexValue? b = some low) (rest : List Char) :
    readBytes ('\\' :: a :: b :: rest) = UInt8.ofNat (high * 16 + low) :: readBytes rest := by
  rw [readBytes, ha, hb]

theorem hexValue?_upperHexDigit : ∀ n < 16, Json.hexValue? (upperHexDigit n) = some n := by
  decide

/-- A plain byte is the encoding of its character. -/
theorem utf8EncodeChar_of_isPlainByte : ∀ n < 256, isPlainByte (UInt8.ofNat n) = true →
    Char.ofNat n ≠ '\\' ∧ String.utf8EncodeChar (Char.ofNat n) = [UInt8.ofNat n] := by
  decide +kernel

/-- A byte is read back from its spelling, whatever comes behind it. -/
theorem readBytes_byteChars (byte : UInt8) (rest : List Char) :
    readBytes (byteChars byte ++ rest) = byte :: readBytes rest := by
  have hlt : byte.toNat < 256 := byte.toNat_lt
  rw [byteChars]
  split
  · next hplain =>
    obtain ⟨hne, hencode⟩ := utf8EncodeChar_of_isPlainByte byte.toNat hlt (by simpa using hplain)
    rw [List.cons_append, List.nil_append, readBytes_plain hne, hencode, UInt8.ofNat_toNat]
    rfl
  · rw [List.cons_append, List.cons_append, List.cons_append, List.nil_append,
      readBytes_escaped (hexValue?_upperHexDigit _ (by omega))
        (hexValue?_upperHexDigit _ (by omega)),
      Nat.div_add_mod', UInt8.ofNat_toNat]

/-- No byte is spelled with a quote. -/
theorem quote_notMem_byteChars (byte : UInt8) : '"' ∉ byteChars byte := by
  have hall : ∀ n < 256, '"' ∉ byteChars (UInt8.ofNat n) := by decide +kernel
  simpa using hall byte.toNat byte.toNat_lt

theorem readBytes_byteStringBody (text : String) :
    readBytes (byteStringBody text) = utf8Bytes text ++ [0] := by
  rw [byteStringBody]
  induction utf8Bytes text with
  | nil => rfl
  | cons byte bytes ih =>
    rw [List.flatMap_cons, List.append_assoc, readBytes_byteChars, ih]
    rfl

theorem quote_notMem_byteStringBody (text : String) : '"' ∉ byteStringBody text := by
  rw [byteStringBody, List.mem_append, List.mem_flatMap]
  rintro (⟨byte, -, hmem⟩ | hmem)
  · exact quote_notMem_byteChars byte hmem
  · simp at hmem

/-- The bytes of a text and a zero are read back from its spelling. -/
theorem readByteString?_text (text : String) :
    readByteString? (Value.bytes text).text = some (utf8Bytes text ++ [0]) := by
  have hlist : (Value.bytes text).text.toList = 'c' :: '"' :: (byteStringBody text ++ ['"']) := by
    simp [Value.text]
  have hbody : ∀ c ∈ byteStringBody text, (c != '"') = true := by
    intro c hc
    rw [bne_iff_ne]
    rintro rfl
    exact quote_notMem_byteStringBody text hc
  have htake : (byteStringBody text ++ ['"']).takeWhile (· != '"') = byteStringBody text := by
    rw [List.takeWhile_append_of_pos hbody]
    simp
  have hdrop : (byteStringBody text ++ ['"']).dropWhile (· != '"') = ['"'] := by
    rw [List.dropWhile_append_of_pos hbody]
    simp
  rw [readByteString?, hlist]
  simp only [hdrop, htake, if_pos, readBytes_byteStringBody]

end Value

/-! ## Numbers of texts -/

namespace StringPool

variable {globals globals' : List GlobalVariable} {text : String} {number : Nat}

theorem length_utf8Bytes (text : String) : (utf8Bytes text).length = text.utf8ByteSize := by
  simp [utf8Bytes]

theorem isPrefix_texts (h : globals <+: globals') : texts globals <+: texts globals' :=
  List.IsPrefix.filterMap text? h

/-- Where the pool is in one state, a text is given its number in a later state. If no constant
holds the text yet, it is the next number. -/
structure Gives (globals later : List GlobalVariable) (text : String) (number : Nat) : Prop where
  holds : (texts later)[number]? = some text
  kept : texts globals <+: texts later
  next : text ∉ texts globals → number = (texts globals).length

theorem Gives.mono {later : List GlobalVariable} (h : Gives globals globals' text number)
    (hlater : globals' <+: later) : Gives globals later text number where
  holds := by
    obtain ⟨more, heq⟩ := isPrefix_texts hlater
    obtain ⟨hlt, -⟩ := List.getElem?_eq_some_iff.mp h.holds
    rw [← heq, List.getElem?_append_left hlt, h.holds]
  kept := h.kept.trans (isPrefix_texts hlater)
  next := h.next

/-- A literal is named after the number that its text is given. -/
theorem exists_gives_intern (globals : List GlobalVariable) (text : String) :
    ∃ number, (intern globals text).1 = nameOf number ∧
      Gives globals (intern globals text).2 text number := by
  cases hindex : (texts globals).idxOf? text with
  | some number =>
    obtain ⟨hlt, heq, -⟩ := List.findIdx?_eq_some_iff_getElem.mp hindex
    have hholds : (texts globals)[number]? = some text := by
      rw [List.getElem?_eq_getElem hlt, beq_iff_eq.mp heq]
    simp only [intern, hindex]
    refine ⟨number, rfl, hholds, List.prefix_rfl, fun hnew => ?_⟩
    exact absurd (List.mem_of_getElem? hholds) hnew
  | none =>
    simp only [intern, hindex]
    refine ⟨_, rfl, ?_, ?_, fun _ => rfl⟩
    · rw [texts_append]
      simp
    · rw [texts_append]
      exact List.prefix_append ..

/-- Among different texts, the names of the constants tell the texts apart. -/
theorem nameOf_eq_iff (h : (texts globals).Nodup) {other : String} {i j : Nat}
    (hi : (texts globals)[i]? = some text) (hj : (texts globals)[j]? = some other) :
    nameOf i = nameOf j ↔ text = other := by
  constructor
  · intro hname
    rw [nameOf_injective hname, hj] at hi
    exact (Option.some.inj hi).symm
  · rintro rfl
    obtain ⟨hlt, -⟩ := List.getElem?_eq_some_iff.mp hi
    rw [(List.getElem?_inj hlt h).mp (hi.trans hj.symm)]

end StringPool

namespace UnitState

open StringPool

variable {s : UnitState} {decl : VariableDecl Term}

/-- What is declared stays at its place when more global variables are declared. -/
theorem isPrefix_foldl_addGlobal (s : UnitState) (decls : List (VariableDecl Term)) :
    s.code.globals <+: (decls.foldl UnitState.addGlobal s).code.globals := by
  refine List.foldlRecOn (motive := fun s' : UnitState => s.code.globals <+: s'.code.globals)
    decls _ List.prefix_rfl fun s' hs decl _ => hs.trans ?_
  obtain ⟨globals, log, hinterned, -, ⟨e, -, heq⟩ | ⟨-, source, value, -, heq⟩⟩ :=
    s'.addGlobal_cases decl
  all_goals rw [heq]
  · exact hinterned.isPrefix_of
  · exact hinterned.isPrefix_of.trans (List.prefix_append ..)

/-- The declaration of a new global variable gives a number to the text that its initializer comes
to. If it is accepted, the variable starts with the address of the constant of that number. -/
theorem exists_gives_addGlobal (hnew : s.globals.lookup decl.name = none) {text : String}
    (htext : decl.literalText? = some text) :
    ∃ number, Gives s.code.globals (s.addGlobal decl).code.globals text number ∧
      (s.accepts decl = true → ∃ g, (s.addGlobal decl).code.globals.getLast? = some g ∧
        g.name = decl.name ∧ g.initializer = some (.global (nameOf number))) := by
  obtain ⟨number, hname, hgives⟩ := exists_gives_intern s.code.globals text
  refine ⟨number, ?_⟩
  obtain ⟨log, -, ⟨hrefused, e, -, heq⟩ | ⟨-, source, value, -, -, haddress, heq⟩⟩ :=
    addGlobal_of_new hnew rfl
  · rw [heq, hrefused, htext]
    exact ⟨hgives, nofun⟩
  · rw [heq, htext]
    refine ⟨hgives.mono (List.prefix_append ..), fun _ => ⟨_, List.getLast?_concat, rfl, ?_⟩⟩
    rw [haddress text htext, hname]

end UnitState

namespace Program

open StringPool UnitState

variable {p : Program} {options : LoweringOptions} {log : DiagnosticLog}

/-- What the global variables add stays there. -/
theorem isPrefix_generate_globals (p : Program) (options : LoweringOptions) (log : DiagnosticLog)
    {before after : List (VariableDecl Term)} (hsplit : p.globals = before ++ after) :
    (before.foldl UnitState.addGlobal (p.laidOut options.moduleName log)).code.globals <+:
      (p.generate options log).1.globals := by
  have hdeclare : (p.declare options.moduleName log).1.code.globals =
      (p.globals.foldl UnitState.addGlobal (p.laidOut options.moduleName log)).code.globals :=
    (addFunction_keeps _ p.functions).2.2
  have hbodies := isPrefix_foldl_addBodyOf options (p.declare options.moduleName log).1
    (p.declare options.moduleName log).2
  rw [hdeclare, hsplit, List.foldl_append] at hbodies
  exact (isPrefix_foldl_addGlobal _ after).trans hbodies

/-- How the string literals of a program become the constants of its module. -/
structure Interns (p : Program) (options : LoweringOptions) (log : DiagnosticLog)
    (m : CodeModule) : Prop where
  /-- The constants are those of different texts, numbered from zero, and no text is there that
  was not reached. -/
  constants : m.globals.filter (fun g => (text? g).isSome) = (texts m.globals).mapIdx constant
  mem_texts : ∀ text, text ∈ texts m.globals ↔ p.ReachesText options log text
  /-- Equal texts have the same constant, and different texts have different ones. -/
  name_eq_iff : ∀ {i j : Nat} {text other : String}, (texts m.globals)[i]? = some text →
    (texts m.globals)[j]? = some other → (nameOf i = nameOf j ↔ text = other)
  /-- The constant of a text is private, and has room for the bytes of the text and a zero. -/
  constant_eq : ∀ {number : Nat} {text : String}, (texts m.globals)[number]? = some text →
    ∃ g ∈ m.globals, g.name = ".str." ++ toString number ∧ g.linkage = .priv ∧
      g.isConstant = true ∧ g.type = .array (text.utf8ByteSize + 1) .i8 ∧
      g.initializer = some (.bytes text)
  /-- An initializer that comes to a text gives it a number, and starts its variable with the
  address of the constant, if the variable is accepted. -/
  initializers : ∀ before decl after, p.globals = before ++ decl :: after →
    let s := before.foldl UnitState.addGlobal (p.laidOut options.moduleName log)
    s.globals.lookup decl.name = none → ∀ text, decl.literalText? = some text →
      ∃ number, Gives s.code.globals m.globals text number ∧
        (s.accepts decl = true → (s.addGlobal decl).code.globals <+: m.globals ∧
          ∃ g, (s.addGlobal decl).code.globals.getLast? = some g ∧ g.name = decl.name ∧
            g.initializer = some (.global (nameOf number)))
  /-- A literal in a body gives its text a number, and has the address of the constant. -/
  literals : ∀ s d body, p.Turn options log s d body → ∀ w location text,
    (s.bodyVisit d body).Contains (s.environment d) (context d) w →
    w.node = .term (.literal location (.string text)) →
      ∃ number, Gives w.state.globals m.globals text number ∧
        exec (Lower.lowerTerm (s.environment d) (.literal location (.string text))) w.state =
          (.ok (stringValue (nameOf number)), w.after (s.environment d) (context d))

theorem interns_generate (p : Program) (options : LoweringOptions) (log : DiagnosticLog) :
    p.Interns options log (p.generate options log).1 := by
  have hinventory := p.inventory_generate options log
  exact {
    constants := hinventory.constants
    mem_texts := hinventory.mem_texts
    name_eq_iff := nameOf_eq_iff hinventory.texts_nodup
    constant_eq := by
      intro number text hnumber
      have hmem : constant number text ∈
          (texts (p.generate options log).1.globals).mapIdx constant := by
        refine List.mem_of_getElem? (i := number) ?_
        rw [List.getElem?_mapIdx, hnumber]
        rfl
      rw [← hinventory.constants] at hmem
      refine ⟨_, (List.mem_filter.mp hmem).1, rfl, rfl, rfl, ?_, rfl⟩
      rw [constant, length_utf8Bytes]
    initializers := by
      intro before decl after hsplit s hnew text htext
      have hlater : (s.addGlobal decl).code.globals <+: (p.generate options log).1.globals := by
        have hcut : p.globals = (before ++ [decl]) ++ after := by simp [hsplit]
        have hprefix := p.isPrefix_generate_globals options log hcut
        rwa [List.foldl_append] at hprefix
      obtain ⟨number, hgives, haccepted⟩ := exists_gives_addGlobal hnew htext
      exact ⟨number, hgives.mono hlater, fun haccepts => ⟨hlater, haccepted haccepts⟩⟩
    literals := by
      intro s d body hturn w location text hw hnode
      obtain ⟨hexec, hglobals⟩ : exec (Lower.lowerTerm (s.environment d) _) w.state =
          (.ok _, w.after (s.environment d) (context d)) ∧ _ := Visit.exec_literal hnode
      obtain ⟨hlater, -⟩ := hinventory.uses s d body hturn w location text hw hnode
      obtain ⟨number, hname, hgives⟩ := exists_gives_intern w.state.globals text
      refine ⟨number, ?_, hname ▸ hexec⟩
      rw [← hglobals] at hgives
      exact hgives.mono hlater }

/-- Equal string literals of a program share one private constant of its module, different ones
have different constants, a new text gets the next number, and there is room for the bytes of a
text and a zero. These bytes are what the spelling of any text stands for. -/
theorem strings_kept (p : Program) (options : LoweringOptions) (log : DiagnosticLog) :
    p.Interns options log (p.generate options log).1 ∧
      ∀ text, Value.readByteString? (Value.bytes text).text = some (utf8Bytes text ++ [0]) ∧
        (utf8Bytes text ++ [0]).length = text.utf8ByteSize + 1 :=
  ⟨p.interns_generate options log, fun text => ⟨Value.readByteString?_text text, by
    rw [List.length_append, length_utf8Bytes, List.length_singleton]⟩⟩

end Program

end SsaLowering
