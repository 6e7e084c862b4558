import Mathlib.Data.List.Chain
import Mathlib.Data.List.Forall2
import SsaLowering.Json.Reader
import SsaLowering.Json.Record
import SsaLowering.Json.Writer

/-!
# Reading what was written as structured data

The compact text of a value is cut back into the tokens of the value, and the tokens are
read back as the value. Two things need care on the way. Every kind of escape has to stand
for the character that it was written for. And a numeral has no end of its own: it is cut off
by what follows it, so no two numerals may stand side by side.
-/

namespace SsaLowering

namespace Json

/-! ## String literals -/

theorem hexValue?_hexDigit : ∀ n < 16, hexValue? (hexDigit n) = some n := by decide

/-- A number below 256, as four hexadecimal digits. -/
theorem hexUnit?_hexDigit {n : Nat} (h : n < 256) :
    hexUnit? '0' '0' (hexDigit (n / 16)) (hexDigit (n % 16)) = some n := by
  have hzero : hexValue? '0' = some 0 := by decide
  simp only [hexUnit?, hzero, hexValue?_hexDigit (n / 16) (by omega),
    hexValue?_hexDigit (n % 16) (by omega), Option.bind_eq_bind, Option.bind_some,
    Option.pure_def, Option.some.injEq]
  omega

/-- The three ways to write a character. -/
theorem escapeChar_cases (c : Char) :
    (∃ letter, letter ≠ 'u' ∧ simpleEscape? letter = some c ∧
      escapeChar c = ['\\', letter]) ∨
    (c.toNat < 32 ∧ escapeChar c =
      ['\\', 'u', '0', '0', hexDigit (c.toNat / 16), hexDigit (c.toNat % 16)]) ∨
    (c ≠ '"' ∧ c ≠ '\\' ∧ ¬ c.toNat < 32 ∧ escapeChar c = [c]) := by
  unfold escapeChar
  split_ifs with hquote hslash hline hreturn htab hback hfeed hcontrol
  · exact .inl ⟨'"', by decide, by rw [hquote]; rfl, rfl⟩
  · exact .inl ⟨'\\', by decide, by rw [hslash]; rfl, rfl⟩
  · exact .inl ⟨'n', by decide, by rw [hline]; rfl, rfl⟩
  · exact .inl ⟨'r', by decide, by rw [hreturn]; rfl, rfl⟩
  · exact .inl ⟨'t', by decide, by rw [htab]; rfl, rfl⟩
  · exact .inl ⟨'b', by decide, by rw [← Char.ofNat_toNat c, hback]; rfl, rfl⟩
  · exact .inl ⟨'f', by decide, by rw [← Char.ofNat_toNat c, hfeed]; rfl, rfl⟩
  · exact .inr (.inl ⟨hcontrol, rfl⟩)
  · exact .inr (.inr ⟨hquote, hslash, hcontrol, rfl⟩)

/-- A piece stands for a character. A unit does so only as a control character, where it is
no half of a pair. -/
def Piece.Spells : Piece → Char → Prop
  | .char c, d => c = d
  | .unit code, d => code < 32 ∧ Char.ofNat code = d

/-- A written character is read as one piece that stands for it. -/
theorem readPieces_escapeChar (c : Char) (rest : List Char) :
    ∃ piece : Piece, piece.Spells c ∧ readPieces (escapeChar c ++ rest) =
      (readPieces rest).bind fun p => some (piece :: p.1, p.2) := by
  obtain ⟨letter, hu, hletter, heq⟩ | ⟨hcontrol, heq⟩ | ⟨hquote, hslash, hplain, heq⟩ :=
    escapeChar_cases c
  · refine ⟨.char c, rfl, ?_⟩
    have hletter' : readPieces ('\\' :: letter :: rest) = (simpleEscape? letter).bind fun c =>
        (readPieces rest).bind fun p => some (.char c :: p.1, p.2) := by
      rw [readPieces]
      · rfl
      · exact fun _ _ _ _ _ h => absurd h hu
    rw [heq, List.cons_append, List.singleton_append, hletter', hletter]
    rfl
  · refine ⟨.unit c.toNat, ⟨hcontrol, Char.ofNat_toNat c⟩, ?_⟩
    simp only [heq, List.cons_append, List.nil_append, readPieces,
      hexUnit?_hexDigit (n := c.toNat) (by omega)]
    rfl
  · refine ⟨.char c, rfl, ?_⟩
    rw [heq, List.singleton_append, readPieces]
    · simp only [hplain, hslash, decide_false, Bool.false_or, beq_iff_eq, if_false]
      rfl
    · exact hquote
    · exact fun _ _ _ _ _ h => absurd h hslash
    · exact fun _ _ h => absurd h hslash

theorem readPieces_flatMap (text rest : List Char) :
    ∃ pieces, List.Forall₂ Piece.Spells pieces text ∧
      readPieces (text.flatMap escapeChar ++ '"' :: rest) = some (pieces, rest) := by
  induction text with
  | nil => exact ⟨[], .nil, rfl⟩
  | cons c text ih =>
    obtain ⟨pieces, hpieces, hread⟩ := ih
    obtain ⟨piece, hpiece, heq⟩ :=
      readPieces_escapeChar c (text.flatMap escapeChar ++ '"' :: rest)
    refine ⟨piece :: pieces, .cons hpiece hpieces, ?_⟩
    rw [List.flatMap_cons, List.append_assoc, heq, hread]
    rfl

/-- A piece that stands for a character adds just this character. -/
theorem assemble?_cons {piece : Piece} {c : Char} (h : piece.Spells c) (pieces : List Piece) :
    assemble? (piece :: pieces) = (assemble? pieces).map (c :: ·) := by
  cases piece with
  | char d => rw [← show d = c from h]; rfl
  | unit code =>
    obtain ⟨hlow, rfl⟩ := h
    have hhigh : isHighSurrogate code = false := by simp [isHighSurrogate]; omega
    have hsecond : isLowSurrogate code = false := by simp [isLowSurrogate]; omega
    rcases pieces with - | ⟨next | next, rest⟩ <;>
      simp [assemble?, hhigh, hsecond]

theorem assemble?_of_spells {pieces : List Piece} {text : List Char}
    (h : List.Forall₂ Piece.Spells pieces text) : assemble? pieces = some text := by
  induction h with
  | nil => rfl
  | cons hpiece _ ih => rw [assemble?_cons hpiece, ih]; rfl

theorem readToken?_quote (text : String) (rest : List Char) :
    readToken? (quote text ++ rest) = some (.string text, rest) := by
  obtain ⟨pieces, hpieces, hread⟩ := readPieces_flatMap text.toList rest
  have hassemble := assemble?_of_spells hpieces
  have hquote : quote text ++ rest = '"' :: (text.toList.flatMap escapeChar ++ '"' :: rest) := by
    simp [quote]
  rw [hquote]
  simp only [readToken?, hread, Option.bind_eq_bind, Option.bind_some, hassemble,
    Option.pure_def, String.ofList_toList]

/-! ## Numerals -/

/-- What may follow a numeral without becoming a part of it. -/
def Ends (rest : List Char) : Prop :=
  ∀ c ∈ rest.head?, c.isDigit = false ∧ c ≠ '.' ∧ c ≠ 'e' ∧ c ≠ 'E'

theorem readDigits?_append {digits rest : List Char} (hne : digits ≠ [])
    (hdigits : ∀ c ∈ digits, c.isDigit) (hrest : Ends rest) :
    readDigits? (digits ++ rest) = some (digits, rest) := by
  have hnone : rest.takeWhile Char.isDigit = [] ∧ rest.dropWhile Char.isDigit = rest := by
    cases rest with
    | nil => exact ⟨rfl, rfl⟩
    | cons c rest => simp [(hrest c rfl).1]
  simp only [readDigits?, List.takeWhile_append_of_pos hdigits,
    List.dropWhile_append_of_pos hdigits, hnone, List.append_nil, List.isEmpty_iff, hne, if_false]

/-- The numeral of a natural number is a sequence of digits. Its first digit is a zero only if it
is the only one. -/
theorem toString_eq_cons (n : Nat) : ∃ c digits, (toString n).toList = c :: digits ∧
    (∀ d ∈ c :: digits, d.isDigit) ∧ (c = '0' → digits = []) := by
  have hdigit : ∀ d ∈ Nat.toDigits 10 n, d.isDigit := fun d hd =>
    Nat.isDigit_of_mem_toDigits (by decide) (by decide) hd
  rw [Nat.toString_eq_ofList_toDigits, String.toList_ofList]
  suffices h : ∃ c digits, Nat.toDigits 10 n = c :: digits ∧ (c = '0' → digits = []) by
    obtain ⟨c, digits, heq, hzero⟩ := h
    exact ⟨c, digits, heq, heq ▸ hdigit, hzero⟩
  clear hdigit
  induction n using Nat.strongRecOn with
  | ind n ih =>
    by_cases hsmall : n < 10
    · exact ⟨n.digitChar, [], Nat.toDigits_of_lt_base hsmall, fun _ => rfl⟩
    · obtain ⟨c, digits, hdigits, hzero⟩ := ih (n / 10) (by omega)
      refine ⟨c, digits ++ [(n % 10).digitChar], ?_, fun hc => ?_⟩
      · rw [Nat.toDigits_of_base_le (by decide) (by omega), hdigits, List.cons_append]
      · -- the number without its last digit would be zero
        have hvalue := Nat.ofDigitChars_toDigits (b := 10) (n := n / 10) (by decide) (by decide)
        rw [hdigits, hc, hzero hc] at hvalue
        have : n / 10 = 0 := hvalue.symm
        omega

theorem readWhole?_append {c : Char} {digits rest : List Char}
    (hdigits : ∀ d ∈ c :: digits, d.isDigit) (hzero : c = '0' → digits = [])
    (hrest : Ends rest) :
    readWhole? (c :: digits ++ rest) = some (c :: digits, rest) := by
  by_cases hc : c = '0'
  · rw [hzero hc, hc]
    rfl
  · have : readWhole? (c :: digits ++ rest) = readDigits? (c :: digits ++ rest) := by
      rw [readWhole?]
      exact fun _ h => hc (List.cons.inj h).1
    rw [this, readDigits?_append (List.cons_ne_nil _ _) hdigits hrest]

theorem readFraction?_of_ends {rest : List Char} (hrest : Ends rest) :
    readFraction? rest = some ([], rest) := by
  cases rest with
  | nil => rfl
  | cons c rest =>
    rw [readFraction?]
    exact fun _ h => (hrest c rfl).2.1 (List.cons.inj h).1

theorem readExponentPart?_of_ends {rest : List Char} (hrest : Ends rest) :
    readExponentPart? rest = some ([], rest) := by
  cases rest with
  | nil => rfl
  | cons c rest => simp [readExponentPart?, (hrest c rfl).2.2]

theorem ne_of_isDigit {c d : Char} (hc : c.isDigit) (hd : d.isDigit = false) : c ≠ d := by
  rintro rfl
  exact Bool.false_ne_true (hd.symm.trans hc)

theorem readNumeral?_append {c : Char} {digits rest : List Char}
    (hdigits : ∀ d ∈ c :: digits, d.isDigit) (hzero : c = '0' → digits = [])
    (hrest : Ends rest) :
    readNumeral? (c :: digits ++ rest) = some (c :: digits, rest) := by
  have hwhole := readWhole?_append hdigits hzero hrest
  have hminus : c ≠ '-' := ne_of_isDigit (hdigits c (.head _)) (by decide)
  unfold readNumeral?
  split
  next h =>
    split at h
    · next heq => exact absurd (List.cons.inj heq).1 hminus
    · cases h
      rw [hwhole]
      simp [readFraction?_of_ends hrest, readExponentPart?_of_ends hrest]

/-- A text that starts with a digit starts with a numeral. -/
theorem readToken?_of_isDigit {c : Char} (hc : c.isDigit) (cs : List Char) :
    readToken? (c :: cs) =
      (readNumeral? (c :: cs)).bind fun p => some (.number (String.ofList p.1), p.2) := by
  unfold readToken?
  split <;> rename_i h <;>
    first
    | exact absurd (List.cons.inj h).1 (ne_of_isDigit hc (by decide))
    | rfl

/-! ## From characters to tokens -/

/-- A token as a writer makes it: its numerals are those of natural numbers, and every string
literal forms text. -/
def Token.Plain : Token → Prop
  | .number numeral => ∃ n : Nat, numeral = toString n
  | .garbled => False
  | _ => True

def Token.IsNumber : Token → Prop
  | .number _ => True
  | _ => False

/-- No two numerals stand side by side. -/
def Apart (tokens : List Token) : Prop :=
  tokens.IsChain fun a b => ¬ (a.IsNumber ∧ b.IsNumber)

theorem Token.Plain.readToken? {token : Token} (hplain : token.Plain) {rest : List Char}
    (hrest : token.IsNumber → Ends rest) :
    readToken? (token.chars ++ rest) = some (token, rest) := by
  cases token with
  | string text => exact readToken?_quote text rest
  | number numeral =>
    obtain ⟨n, rfl⟩ := hplain
    obtain ⟨c, digits, hcons, hdigits, hzero⟩ := toString_eq_cons n
    have hread := readNumeral?_append hdigits hzero (hrest trivial)
    have hchars : (Token.number (toString n)).chars = c :: digits := hcons
    have hspell : String.ofList (c :: digits) = toString n := by
      rw [← hcons, String.ofList_toList]
    rw [hchars, List.cons_append, readToken?_of_isDigit (hdigits c (.head _)), ← List.cons_append,
      hread, Option.bind_some, hspell]
  | garbled => exact hplain.elim
  | bool value => cases value <;> rfl
  | _ => rfl

/-- A written token starts with a character that is no blank and, unless it is a numeral, does
not continue a numeral before it. -/
theorem Token.Plain.exists_cons {token : Token} (hplain : token.Plain) :
    ∃ c cs, token.chars = c :: cs ∧ isBlank c = false ∧
      (¬ token.IsNumber → c.isDigit = false ∧ c ≠ '.' ∧ c ≠ 'e' ∧ c ≠ 'E') := by
  cases token with
  | number numeral =>
    obtain ⟨n, rfl⟩ := hplain
    obtain ⟨c, digits, hcons, hdigits, -⟩ := toString_eq_cons n
    refine ⟨c, digits, hcons, ?_, fun h => absurd trivial h⟩
    have hne : ∀ d, d.isDigit = false → c ≠ d := fun d => ne_of_isDigit (hdigits c (.head _))
    simp [isBlank, hne ' ' (by decide), hne '\n' (by decide), hne '\t' (by decide),
      hne '\r' (by decide)]
  | garbled => exact hplain.elim
  | bool value => cases value <;> exact ⟨_, _, rfl, by decide, fun _ => by decide⟩
  | string text => exact ⟨_, _, rfl, by decide, fun _ => by decide⟩
  | _ => exact ⟨_, _, rfl, by decide, fun _ => by decide⟩

/-- A text has these tokens, whatever the bound on the number of steps. -/
def Scans (cs : List Char) (tokens : List Token) : Prop :=
  ∀ fuel, cs.length ≤ fuel → scan? fuel cs = some tokens

theorem Scans.cons {token : Token} {tokens : List Token} {rest : List Char}
    (hplain : token.Plain) (hrest : token.IsNumber → Ends rest) (h : Scans rest tokens) :
    Scans (token.chars ++ rest) (token :: tokens) := by
  obtain ⟨c, cs, hchars, hblank, -⟩ := hplain.exists_cons
  have hread := hplain.readToken? hrest
  rw [hchars, List.cons_append] at hread ⊢
  intro fuel hfuel
  cases fuel with
  | zero => simp at hfuel
  | succ fuel =>
    have hlength : rest.length ≤ fuel := by simp at hfuel; omega
    simp only [scan?, hblank, Bool.false_eq_true, if_false, hread, h fuel hlength,
      Option.bind_eq_bind, Option.bind_some, Option.pure_def]

/-- Plain tokens without numerals side by side are found again in their text. -/
theorem scans_flatMap {tokens : List Token} (hplain : ∀ t ∈ tokens, t.Plain)
    (hapart : Apart tokens) : Scans (tokens.flatMap Token.chars) tokens := by
  induction tokens with
  | nil => exact fun fuel _ => by cases fuel <;> rfl
  | cons token tokens ih =>
    have htail : ∀ t ∈ tokens, t.Plain := fun t ht => hplain t (.tail _ ht)
    rw [List.flatMap_cons]
    refine Scans.cons (hplain token (.head _)) (fun hnumber => ?_)
      (ih htail hapart.tail)
    cases tokens with
    | nil => rintro c ⟨⟩
    | cons next rest =>
      have hnext : ¬ next.IsNumber := fun h =>
        (List.isChain_cons_cons.mp hapart).1 ⟨hnumber, h⟩
      obtain ⟨c, cs, hchars, -, hends⟩ := (htail next (.head _)).exists_cons
      rw [List.flatMap_cons, hchars]
      intro d hd
      obtain rfl : c = d := Option.some.inj hd
      exact hends hnext

/-! ## From tokens to values -/

theorem Apart.append_cons {left right : List Token} {separator : Token} (hleft : Apart left)
    (hright : Apart right) (h : ¬ separator.IsNumber) : Apart (left ++ separator :: right) := by
  have hcons : (separator :: right).IsChain fun a b => ¬ (a.IsNumber ∧ b.IsNumber) :=
    List.isChain_cons.mpr ⟨fun _ _ hnumber => h hnumber.1, hright⟩
  refine List.isChain_append.mpr ⟨hleft, hcons, ?_⟩
  rintro a - b hb ⟨-, hnumber⟩
  exact h (Option.some.inj hb ▸ hnumber)

theorem Apart.cons {token : Token} {rest : List Token} (h : Apart rest)
    (htoken : ¬ token.IsNumber) : Apart (token :: rest) :=
  Apart.append_cons .nil h htoken

mutual

/-- Between the numerals of a value stands always a comma, a bracket, a brace or a colon. -/
theorem apart_tokens : ∀ j : Json, Apart j.tokens
  | .null | .bool _ | .number _ | .string _ | .garbled => .singleton _
  | .array items => ((apart_itemTokens items).append_cons .nil id).cons id
  | .object fields => ((apart_fieldTokens fields).append_cons .nil id).cons id

theorem apart_itemTokens : ∀ items : List Json, Apart (itemTokens items)
  | [] => .nil
  | [item] => apart_tokens item
  | item :: next :: rest => (apart_tokens item).append_cons (apart_itemTokens (next :: rest)) id

theorem apart_fieldTokens : ∀ fields : List (String × Json), Apart (fieldTokens fields)
  | [] => .nil
  | [(_, value)] => ((apart_tokens value).cons id).cons id
  | (_, value) :: next :: rest =>
    (((apart_tokens value).append_cons (apart_fieldTokens (next :: rest)) id).cons id).cons id

end

/-- No value starts with what ends an array. -/
theorem tokens_eq_cons (j : Json) : ∃ t ts, j.tokens = t :: ts ∧ t ≠ .rightBracket := by
  cases j <;> exact ⟨_, _, rfl, by simp⟩

theorem itemTokens_eq_cons (item : Json) (items : List Json) :
    ∃ t ts, itemTokens (item :: items) = t :: ts ∧ t ≠ .rightBracket := by
  obtain ⟨t, ts, heq, ht⟩ := tokens_eq_cons item
  cases items with
  | nil => exact ⟨t, ts, heq, ht⟩
  | cons next rest =>
    exact ⟨t, ts ++ .comma :: itemTokens (next :: rest), by simp [itemTokens, heq], ht⟩

theorem fieldTokens_eq_cons (field : String × Json) (fields : List (String × Json)) :
    ∃ ts, fieldTokens (field :: fields) = .string field.1 :: ts := by
  cases fields <;> exact ⟨_, rfl⟩

mutual

/-- The tokens of a value are read as this value. Every step takes at least one token, so their
number bounds the number of steps. -/
theorem readValue?_tokens : ∀ (j : Json) (fuel : Nat) (rest : List Token),
    j.tokens.length ≤ fuel → readValue? fuel (j.tokens ++ rest) = some (j, rest)
  | j, 0, _, h => by
    obtain ⟨t, ts, heq, -⟩ := tokens_eq_cons j
    simp [heq] at h
  | .null, _ + 1, _, _ | .bool _, _ + 1, _, _ | .number _, _ + 1, _, _
  | .string _, _ + 1, _, _ | .garbled, _ + 1, _, _ => rfl
  | .array [], _ + 1, _, _ | .object [], _ + 1, _, _ => rfl
  | .array (item :: items), fuel + 1, rest, h => by
    have hlength : (itemTokens (item :: items)).length < fuel := by
      simp only [tokens, List.length_append, List.length_cons, List.length_nil] at h
      omega
    have hitems := readItems?_itemTokens (item :: items) (by simp) fuel rest hlength
    obtain ⟨t, ts, heq, ht⟩ := itemTokens_eq_cons item items
    rw [heq, List.cons_append] at hitems
    simp [tokens, heq, readValue?, ht, hitems]
  | .object (field :: fields), fuel + 1, rest, h => by
    have hlength : (fieldTokens (field :: fields)).length < fuel := by
      simp only [tokens, List.length_append, List.length_cons, List.length_nil] at h
      omega
    have hfields := readFields?_fieldTokens (field :: fields) (by simp) fuel rest hlength
    obtain ⟨ts, heq⟩ := fieldTokens_eq_cons field fields
    rw [heq, List.cons_append] at hfields
    simp [tokens, heq, readValue?, hfields]

theorem readItems?_itemTokens : ∀ (items : List Json) (_ : items ≠ []) (fuel : Nat)
    (rest : List Token), (itemTokens items).length < fuel →
    readItems? fuel (itemTokens items ++ .rightBracket :: rest) = some (items, rest)
  | _, _, 0, _, h => absurd h (Nat.not_lt_zero _)
  | [item], _, fuel + 1, rest, h => by
    simp only [itemTokens] at h
    have hitem := readValue?_tokens item fuel (.rightBracket :: rest) (by omega)
    simp [readItems?, itemTokens, hitem]
  | item :: next :: items, _, fuel + 1, rest, h => by
    simp only [itemTokens, List.length_append, List.length_cons] at h
    have hitem := readValue?_tokens item fuel
      (.comma :: (itemTokens (next :: items) ++ .rightBracket :: rest)) (by omega)
    have hitems := readItems?_itemTokens (next :: items) (by simp) fuel rest (by omega)
    simp [readItems?, itemTokens, hitem, hitems]

theorem readFields?_fieldTokens : ∀ (fields : List (String × Json)) (_ : fields ≠ [])
    (fuel : Nat) (rest : List Token), (fieldTokens fields).length < fuel →
    readFields? fuel (fieldTokens fields ++ .rightBrace :: rest) = some (some fields, rest)
  | _, _, 0, _, h => absurd h (Nat.not_lt_zero _)
  | [(name, value)], _, fuel + 1, rest, h => by
    simp only [fieldTokens, List.length_cons] at h
    have hvalue := readValue?_tokens value fuel (.rightBrace :: rest) (by omega)
    simp [readFields?, fieldTokens, hvalue, Token.fieldName?, consField]
  | (name, value) :: next :: fields, _, fuel + 1, rest, h => by
    simp only [fieldTokens, List.length_append, List.length_cons] at h
    have hvalue := readValue?_tokens value fuel
      (.comma :: (fieldTokens (next :: fields) ++ .rightBrace :: rest)) (by omega)
    have hfields := readFields?_fieldTokens (next :: fields) (by simp) fuel rest (by omega)
    simp [readFields?, fieldTokens, hvalue, hfields, Token.fieldName?, consField]

end

theorem ofTokens?_tokens (j : Json) : ofTokens? j.tokens = some j := by
  have h := readValue?_tokens j (j.tokens.length + 1) [] (Nat.le_succ _)
  rw [List.append_nil] at h
  simp [ofTokens?, h]

/-- A value whose numerals are natural numbers and whose string literals all form text. -/
def Plain (j : Json) : Prop := ∀ t ∈ j.tokens, t.Plain

/-- Reading undoes writing for plain values. -/
theorem parse?_compact {j : Json} (h : j.Plain) : parse? j.compact = some j := by
  have hscan := scans_flatMap h (apart_tokens j) _ (le_refl _)
  simp only [parse?, compact, String.toList_ofList, hscan, Option.bind_eq_bind, Option.bind_some,
    ofTokens?_tokens]

end Json

end SsaLowering
