import Haxify.Proofs.SwitchLowering

/-!
# Templates as sums

A template becomes the sum of its texts and substitutions. Adding is concatenation only if the
first operand is a text, so a sum has to begin with a literal. Whether it does is judged by the
first character of the first operand: a substitution that begins with a literal without being one,
such as the length of a literal, is taken for one. Main statement: in every other case the sum
begins with a literal and so its value is a text, whatever the substitutions are.
-/

namespace Haxify

open List
open TypeScript (Element Node)

variable {offset : Nat} {body : String} {operands : List String}

namespace Text

/-- The number of bytes that characters occupy. -/
def byteCount : List Char → Nat
  | [] => 0
  | char :: rest => char.utf8Size + byteCount rest

def bytes (text : String) : Nat := byteCount text.toList

theorem byteCount_append (first second : List Char) :
    byteCount (first ++ second) = byteCount first + byteCount second := by
  induction first with
  | nil => exact (Nat.zero_add _).symm
  | cons char rest rest_count =>
    rw [cons_append, byteCount, byteCount, rest_count, Nat.add_assoc]

@[simp] theorem bytes_append (first second : String) :
    bytes (first ++ second) = bytes first + bytes second := by
  rw [bytes, String.toList_append, byteCount_append, bytes, bytes]

theorem byteCount_cons (char : Char) (rest : List Char) :
    ∃ count, byteCount (char :: rest) = count + 1 ∧ count + 1 - char.utf8Size = byteCount rest := by
  obtain ⟨count, size⟩ :=
    Nat.exists_eq_add_one.mpr (Nat.add_pos_left char.utf8Size_pos (byteCount rest))
  exact ⟨count, size, by rw [← size, Nat.add_sub_cancel_left]⟩

theorem dropBytes_byteCount (before chars : List Char) :
    dropBytes (byteCount before) (before ++ chars) = chars := by
  induction before with
  | nil => cases chars <;> rfl
  | cons char rest dropped =>
    obtain ⟨count, size, left⟩ := byteCount_cons char rest
    rw [size, cons_append, dropBytes, left, dropped]

theorem takeBytes_byteCount (chars behind : List Char) :
    takeBytes (byteCount chars) (chars ++ behind) = chars := by
  induction chars with
  | nil => cases behind <;> rfl
  | cons char rest taken =>
    obtain ⟨count, size, left⟩ := byteCount_cons char rest
    rw [size, cons_append, takeBytes, left, taken]

theorem slice_between (before text behind : String) :
    slice (before ++ text ++ behind).toList (bytes before) (bytes before + bytes text) = text := by
  rw [slice, Nat.add_sub_cancel_left, String.append_assoc, String.toList_append, bytes,
    bytes, dropBytes_byteCount, String.toList_append, takeBytes_byteCount, String.ofList_toList]

end Text

namespace Haxe

/-- Whether the first quote that is not escaped is the last character. -/
def closesAtEnd : List Char → Bool
  | [] => false
  | ['"'] => true
  | '"' :: _ => false
  | '\\' :: _ :: rest => closesAtEnd rest
  | _ :: rest => closesAtEnd rest

/-- Whether a text is one string literal. -/
def isLiteral (text : String) : Bool :=
  match text.toList with
  | '"' :: rest => closesAtEnd rest
  | _ => false

theorem closesAtEnd_plain {char : Char} (rest : List Char) (noQuote : char ≠ '"')
    (noEscape : char ≠ '\\') : closesAtEnd (char :: rest) = closesAtEnd rest := by
  cases rest <;> simp [closesAtEnd, noQuote, noEscape]

theorem closesAtEnd_spelled {element : Element} (written : isWritten element)
    (rest : List Char) : closesAtEnd (element.spelled ++ rest) = closesAtEnd rest := by
  have digits (digit : TypeScript.HexDigit) (rest : List Char) :
      closesAtEnd (digit.char :: rest) = closesAtEnd rest :=
    closesAtEnd_plain rest (digit.char_ne (by decide)) (digit.char_ne (by decide))
  cases element with
  | plain char allowed =>
    simp only [isWritten, Bool.and_eq_true, bne_iff_ne] at written
    exact closesAtEnd_plain rest written.1 fun same => allowed (same ▸ mem_cons_self)
  | letter sign value listed => rfl
  | byte first second | unit first second third fourth =>
    simp only [Element.spelled, cons_append, nil_append, closesAtEnd, digits]
  | _ => cases written

theorem isLiteral_quote (text : String) : isLiteral (quote text) := by
  have closes {body : List Element} (written : ∀ element ∈ body, isWritten element) :
      closesAtEnd (body.flatMap Element.spelled ++ ['"']) := by
    induction body with
    | nil => rfl
    | cons element rest rest_closes =>
      obtain ⟨first, others⟩ := forall_mem_cons.mp written
      rw [flatMap_cons, append_assoc, closesAtEnd_spelled first]
      exact rest_closes others
  obtain ⟨body, written, _, spelled, _⟩ := flatMap_escapeChar_eq_spelled text.toList
  rw [isLiteral, toList_quote, ← spelled]
  exact closes written

/-- Values that can be added, among them texts: a text with any value added is the text with that
value displayed behind it. -/
structure Addition (Value : Type) where
  ofText : String → Value
  display : Value → String
  add : Value → Value → Value
  display_ofText : ∀ text, display (ofText text) = text
  ofText_add : ∀ text value, add (ofText text) value = ofText (text ++ display value)

namespace Addition

variable {Value : Type} (addition : Addition Value)

/-- Values added from the left. -/
def sum : List Value → Value
  | [] => addition.ofText ""
  | first :: rest => rest.foldl addition.add first

def displayed (values : List Value) : String := String.join (values.map addition.display)

theorem displayed_cons (first : Value) (rest : List Value) :
    addition.displayed (first :: rest) = addition.display first ++ addition.displayed rest := by
  rw [displayed, map_cons, String.join_cons, displayed]

theorem sum_ofText (text : String) (rest : List Value) :
    addition.sum (addition.ofText text :: rest) =
      addition.ofText (text ++ addition.displayed rest) := by
  rw [sum]
  induction rest generalizing text with
  | nil => simp [displayed]
  | cons value rest rest_sum =>
    rw [foldl_cons, addition.ofText_add, rest_sum, displayed_cons, String.append_assoc]

end Addition

end Haxe

namespace Lower

open Haxe (isLiteral isLiteral_quote Addition)
open Lowering

variable {context : Context} {state after : State} {node : Part} {chunks values : List String}
  {parts : List Part}

section Layout

/-- Parts that stand in a text from a byte offset on, with the texts in front of each and behind
the last. -/
inductive Laid : Nat → List String → List Part → String → Prop where
  | last (offset : Nat) (text : String) : Laid offset [text] [] text
  | next {offset : Nat} {chunk behind : String} {chunks : List String} {part : Part}
      {parts : List Part} (start : part.token.start = offset + Text.bytes chunk)
      (stop : part.token.stop = part.token.start + Text.bytes part.text)
      (rest : Laid part.token.stop chunks parts behind) :
      Laid offset (chunk :: chunks) (part :: parts) (chunk ++ part.text ++ behind)

/-- A template is written with texts around its substitutions. -/
structure IsTemplate (node : Part) (chunks : List String) (parts : List Part) : Prop where
  substitutions : node.named.filter (·.kind == "template_substitution") = parts
  stop : node.token.stop = node.token.start + Text.bytes node.text
  written : ∃ body, node.text = "`" ++ body ++ "`" ∧ Laid (node.token.start + 1) chunks parts body

/-- A text of a template as a piece, unless it is empty. -/
def chunkPiece (chunk : String) : List TemplatePiece := if chunk == "" then [] else [.chunk chunk]

def piecesOf : List String → List Part → List TemplatePiece
  | chunk :: chunks, part :: parts =>
    chunkPiece chunk ++ .substitution part :: piecesOf chunks parts
  | chunks, _ => chunks.flatMap chunkPiece

theorem templatePieces_filter (start stop : Nat) (children : List Part) :
    templatePieces node start stop children =
      templatePieces node start stop (children.filter (·.kind == "template_substitution")) := by
  induction children generalizing start with
  | nil => rfl
  | cons child rest rest_pieces =>
    rw [templatePieces, filter_cons]
    split
    · rw [templatePieces, if_pos ‹_›, rest_pieces]
    · exact rest_pieces start

theorem templateChunk_eq {before text behind : String}
    (whole : node.text = before ++ text ++ behind)
    {start stop : Nat} (begins : start = node.token.start + Text.bytes before)
    (ends : stop = start + Text.bytes text) : templateChunk node start stop = chunkPiece text := by
  have offset : start - node.token.start = Text.bytes before := by omega
  have length : stop - node.token.start = Text.bytes before + Text.bytes text := by omega
  rw [templateChunk, offset, length, whole, Text.slice_between, chunkPiece]

theorem templatePieces_eq (laid : Laid offset chunks parts body)
    (isSubstitution : ∀ part ∈ parts, part.kind = "template_substitution") {before behind : String}
    (whole : node.text = before ++ body ++ behind)
    (begins : offset = node.token.start + Text.bytes before) :
    templatePieces node offset (offset + Text.bytes body) parts = piecesOf chunks parts := by
  induction laid generalizing before with
  | last offset text =>
    rw [templatePieces, templateChunk_eq whole begins rfl, piecesOf.eq_def]
    exact (flatMap_singleton _ _).symm
  | @next offset chunk later chunks part parts start stop rest rest_pieces =>
    obtain ⟨first, others⟩ := forall_mem_cons.mp isSubstitution
    have cut : templateChunk node offset part.token.start = chunkPiece chunk := by
      have apart : node.text = before ++ chunk ++ (part.text ++ later ++ behind) := by
        simp only [whole, String.append_assoc]
      exact templateChunk_eq apart begins start
    have last : offset + Text.bytes (chunk ++ part.text ++ later) =
        part.token.stop + Text.bytes later := by
      simp only [Text.bytes_append]
      omega
    have apart : node.text = before ++ chunk ++ part.text ++ later ++ behind := by
      simp only [whole, String.append_assoc]
    have pieces := rest_pieces others apart (by simp only [Text.bytes_append]; omega)
    rw [templatePieces, if_pos (beq_iff_eq.mpr first), cut, last, pieces, piecesOf]

end Layout

section Operands

/-- The literal of a text of a template, unless it is empty. -/
def chunkLiteral (chunk : String) : List String :=
  if chunk == "" then [] else [Haxe.quote (TypeScript.decodeEscapes chunk)]

/-- The operands of a template in order: the literals of its texts, and the values of its
substitutions between them. -/
def operandsOf : List String → List String → List String
  | chunk :: chunks, value :: values => chunkLiteral chunk ++ value :: operandsOf chunks values
  | chunks, _ => chunks.flatMap chunkLiteral

/-- A substitution is lowered to a text. -/
def Substituted (context : Context) (part : Part) (value : String) : Prop :=
  ∃ expression before behind, part.first? = some expression ∧
    expression.value.expression.evaluate context before = (.ok value, behind)

theorem substituted_of_templateOperand {part : Part} {value : String}
    (run : (templateOperand (.substitution part)).evaluate context state = (.ok value, after)) :
    Substituted context part value := by
  rw [templateOperand] at run
  split at run
  · exact ⟨_, state, after, ‹_›, run⟩
  · cases run

theorem evaluate_chunkPiece {chunk : String} {pieces : List TemplatePiece}
    (run : (forEach (chunkPiece chunk ++ pieces) templateOperand).evaluate context state =
      (.ok operands, after)) :
    ∃ others, (forEach pieces templateOperand).evaluate context state = (.ok others, after) ∧
      operands = chunkLiteral chunk ++ others := by
  rw [chunkPiece] at run
  rw [chunkLiteral]
  split
  · rw [if_pos ‹_›] at run
    exact ⟨operands, run, rfl⟩
  · rw [if_neg ‹_›] at run
    obtain ⟨literal, between, others, first, second, rfl⟩ := forEach_cons_eq_ok.mp run
    obtain ⟨rfl, rfl⟩ := pure_eq_ok.mp first
    exact ⟨others, second, rfl⟩

theorem operands_of_pieces (laid : Laid offset chunks parts body)
    (run : (forEach (piecesOf chunks parts) templateOperand).evaluate
      context state = (.ok operands, after)) :
    ∃ values, Forall₂ (Substituted context) parts values ∧ operands = operandsOf chunks values := by
  induction laid generalizing state operands with
  | last offset text =>
    have pieces : piecesOf [text] [] = chunkPiece text ++ [] := by simp [piecesOf]
    rw [pieces] at run
    obtain ⟨others, rest, rfl⟩ := evaluate_chunkPiece run
    obtain ⟨rfl, _⟩ := pure_eq_ok.mp rest
    exact ⟨[], .nil, by simp [operandsOf]⟩
  | next start stop rest rest_operands =>
    rw [piecesOf] at run
    obtain ⟨_, rest, rfl⟩ := evaluate_chunkPiece run
    obtain ⟨value, _, _, first, later, rfl⟩ := forEach_cons_eq_ok.mp rest
    obtain ⟨values, substituted, rfl⟩ := rest_operands later
    exact ⟨value :: values, .cons (substituted_of_templateOperand first) substituted, rfl⟩

theorem template_eq_ok (isTemplate : IsTemplate node chunks parts) {text : String}
    (run : (template node).evaluate context state = (.ok text, after)) :
    ∃ values, Forall₂ (Substituted context) parts values ∧
      text = concatenation (operandsOf chunks values) := by
  obtain ⟨body, whole, laid⟩ := isTemplate.written
  have one : Text.bytes "`" = 1 := rfl
  have stop : max (node.token.stop - 1) (node.token.start + 1) =
      node.token.start + 1 + Text.bytes body := by
    have length := isTemplate.stop
    rw [whole, Text.bytes_append, Text.bytes_append, one] at length
    omega
  have pieces : templatePieces node (node.token.start + 1)
      (node.token.start + 1 + Text.bytes body) node.named = piecesOf chunks parts := by
    rw [templatePieces_filter, isTemplate.substitutions]
    refine templatePieces_eq laid (fun part member => ?_) whole rfl
    rw [← isTemplate.substitutions] at member
    simpa using (mem_filter.mp member).2
  simp only [template, stop, pieces] at run
  obtain ⟨operands, _, each, finish⟩ := bind_eq_ok.mp run
  obtain ⟨rfl, _⟩ := pure_eq_ok.mp finish
  obtain ⟨values, substituted, rfl⟩ := operands_of_pieces laid each
  exact ⟨values, substituted, rfl⟩

end Operands

section Sums

/-- The text of a sum: its operand, or its operands between parentheses. -/
def sumText : List String → String
  | [only] => only
  | several => "(" ++ Text.joinWith " + " several ++ ")"

/-- Operands with a literal at the beginning, which may be an empty one put in front. -/
def LedByLiteral (operands all : List String) : Prop :=
  (all = operands ∨ all = "\"\"" :: operands) ∧ ∃ first ∈ all.head?, isLiteral first

/-- A template begins with a substitution whose value begins with a literal but is none. -/
def BeginsLikeLiteral (chunks values : List String) : Prop :=
  chunks.head? = some "" ∧
    ∃ value ∈ values.head?, Text.beginsWith value "\"" ∧ isLiteral value = false

theorem concatenation_eq (operands : List String) :
    concatenation operands = sumText (literalOperandFirst operands) := by
  rw [concatenation]
  cases literalOperandFirst operands with
  | nil => rfl
  | cons first rest => cases rest <;> rfl

theorem length_sumText_lt (first : String) (some : operands ≠ []) :
    (sumText operands).length < (sumText (first :: operands)).length := by
  obtain ⟨next, later, rfl⟩ := exists_cons_of_ne_nil some
  have sign : " + ".length = 3 := rfl
  cases later
  all_goals
    simp only [sumText, Text.joinWith, String.length_append, sign]
    omega

theorem led_iff (operands : List String) :
    (∃ all, LedByLiteral operands all ∧ concatenation operands = sumText all) ↔
      ∀ first ∈ operands.head?, Text.beginsWith first "\"" → isLiteral first := by
  rw [concatenation_eq]
  constructor
  · rintro ⟨all, ⟨added, first, head, literal⟩, text⟩ value among looks
    obtain ⟨rest, rfl⟩ := head?_eq_some_iff.mp among
    rcases added with rfl | rfl
    · obtain rfl : value = first := by simpa using head
      exact literal
    · -- With a literal in front the sum would be longer than it is.
      rw [literalOperandFirst, if_pos looks] at text
      have shorter := length_sumText_lt "\"\"" (cons_ne_nil value rest)
      rw [text] at shorter
      exact absurd shorter (lt_irrefl _)
  · intro complete
    refine ⟨literalOperandFirst operands, ?_, rfl⟩
    cases operands with
    | nil => exact ⟨.inr rfl, "\"\"", rfl, rfl⟩
    | cons first rest =>
      rw [literalOperandFirst]
      split
      · exact ⟨.inl rfl, first, rfl, complete first rfl ‹_›⟩
      · exact ⟨.inr rfl, "\"\"", rfl, rfl⟩

theorem isLiteral_of_mem_chunkLiteral {chunk literal : String}
    (member : literal ∈ chunkLiteral chunk) : isLiteral literal := by
  rw [chunkLiteral] at member
  split at member
  · cases member
  · rw [mem_singleton.mp member]
    exact isLiteral_quote _

theorem head_operandsOf_iff : (∀ first ∈ (operandsOf chunks values).head?,
    Text.beginsWith first "\"" → isLiteral first) ↔ ¬BeginsLikeLiteral chunks values := by
  rw [operandsOf.eq_def, BeginsLikeLiteral]
  split
  · rename_i chunk chunks value values
    by_cases empty : chunk = ""
    · simp [empty, chunkLiteral]
    · simp [empty, chunkLiteral, isLiteral_quote]
  · rename_i noPair
    refine iff_of_true (fun first head _ => ?_) ?_
    · obtain ⟨chunk, _, inside⟩ := mem_flatMap.mp (mem_of_mem_head? head)
      exact isLiteral_of_mem_chunkLiteral inside
    · rintro ⟨front, value, head, _⟩
      obtain ⟨_, rfl⟩ := head?_eq_some_iff.mp front
      obtain ⟨_, rfl⟩ := head?_eq_some_iff.mp head
      exact noPair _ _ _ _ rfl rfl

theorem sum_of_led {Value : Type} (addition : Addition Value) {read : String → Value}
    (reads : ∀ literal, isLiteral literal → ∃ text, read literal = addition.ofText text)
    (readsEmpty : read "\"\"" = addition.ofText "") {all : List String}
    (led : LedByLiteral operands all) :
    addition.sum (all.map read) = addition.ofText (addition.displayed (operands.map read)) := by
  obtain ⟨added, first, head, literal⟩ := led
  obtain ⟨rest, rfl⟩ := head?_eq_some_iff.mp head
  obtain ⟨text, value⟩ := reads first literal
  rw [map_cons, value, addition.sum_ofText]
  rcases added with rfl | same
  · rw [map_cons, addition.displayed_cons, value, addition.display_ofText]
  · obtain ⟨rfl, rfl⟩ := List.cons.inj same
    have empty := congrArg addition.display (value.symm.trans readsEmpty)
    rw [addition.display_ofText, addition.display_ofText] at empty
    rw [empty, String.empty_append]

end Sums

namespace Sample

def spanned (kind field text : String) (start : Nat) (children : List Node) :
    Node :=
  .node ⟨kind, true, false, field, start, start + Text.bytes text, ⟨1, start + 1⟩, text⟩ () children

def numberIn (start : Nat) : Node :=
  spanned "template_substitution" "" "$\x7b1\x7d" start [spanned "number" "" "1" (start + 2) []]

def letterAndNumber : Node :=
  spanned "template_string" "" "`é$\x7b1\x7d`" 0 [spanned "string_fragment" "" "é" 1 [], numberIn 3]

def lengthIn (start : Nat) : Node :=
  spanned "template_substitution" "" "$\x7b\"a\".length\x7d" start
    [spanned "member_expression" "" "\"a\".length" (start + 2)
      [spanned "string" "object" "\"a\"" (start + 2) [],
        spanned "property_identifier" "property" "length" (start + 6) []]]

def lengthAndNumber : Node :=
  spanned "template_string" "" "`$\x7b\"a\".length\x7d$\x7b1\x7d`" 0 [lengthIn 1, numberIn 14]

def textsAndNumbers : Addition (String ⊕ Nat) where
  ofText := .inl
  display := Sum.elim id toString
  add first second :=
    match first, second with
    | .inr first, .inr second => .inr (first + second)
    | _, _ => .inl (Sum.elim id toString first ++ Sum.elim id toString second)
  display_ofText _ := rfl
  ofText_add _ _ := rfl

end Sample

open Sample

end Lower

end Haxify
