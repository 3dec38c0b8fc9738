import Haxify.Haxe.Code
import Haxify.Haxe.Parentheses
import Haxify.Proofs.Names
import Haxify.Proofs.Quoting
import Mathlib.Data.List.TakeWhile

/-!
# Brackets in generated text

A reader goes through a text and keeps the brackets that are open. A text is balanced if every
literal ends on its line and all brackets are closed, each by one of its kind. What is balanced
on its own is balanced wherever it stands outside of literals, so texts are put together
without looking into their parts. Code whose lines are balanced one behind the other is
balanced as it is written, whatever its indentation.
-/

namespace Haxify.Haxe

open List
open Text (isBlank joinWith trimEnd)
open Option (bind_some bind_eq_some_iff)

variable {separator unit : String} {parts : List String}

/-- The characters that a reader takes for more than themselves. -/
def marks : List Char := ['(', ')', '[', ']', '\x7b', '\x7d', '"', '\'']

/-- A text without brackets and quotes. -/
def Unmarked (text : String) : Prop := text.toList.all fun char => !marks.contains char

instance (text : String) : Decidable (Unmarked text) := inferInstanceAs (Decidable (_ = true))

/-- Where a reader stands, with the brackets that are open, the innermost first. -/
inductive Reader where
  | code (opened : List Char)
  | literal (opened : List Char)
  | escaped (opened : List Char)
deriving DecidableEq

namespace Reader

variable {reader behind : Reader} {char : Char}

/-- The reader behind a closing bracket, which must belong to the innermost open one. -/
def closing (bracket : Char) : List Char → Option Reader
  | [] => none
  | innermost :: rest => if innermost = bracket then some (.code rest) else none

/-- The reader one character on. A literal must not end its line, and literals in single quotes
are not read. -/
def next : Reader → Char → Option Reader
  | .code opened, char =>
    if char = '(' || char = '[' || char = '\x7b' then some (.code (char :: opened))
    else if char = ')' then closing '(' opened
    else if char = ']' then closing '[' opened
    else if char = '\x7d' then closing '\x7b' opened
    else if char = '"' then some (.literal opened)
    else if char = '\'' then none
    else some (.code opened)
  | .literal opened, char =>
    if char = '\n' then none
    else if char = '"' then some (.code opened)
    else if char = '\\' then some (.escaped opened)
    else some (.literal opened)
  | .escaped opened, char => if char = '\n' then none else some (.literal opened)

/-- The reader behind some characters. -/
def read (reader : Reader) : List Char → Option Reader
  | [] => some reader
  | char :: rest => (reader.next char).bind fun behind => behind.read rest

/-- The reader with more brackets open around all that it knows of. -/
def under (outer : List Char) : Reader → Reader
  | .code opened => .code (opened ++ outer)
  | .literal opened => .literal (opened ++ outer)
  | .escaped opened => .escaped (opened ++ outer)

/-- The open brackets, outside of literals only. -/
@[simp] def settled : Reader → Option (List Char)
  | .code opened => some opened
  | _ => none

@[simp] theorem read_nil (reader : Reader) : reader.read [] = some reader := rfl

theorem read_cons (reader : Reader) (char : Char) (rest : List Char) :
    reader.read (char :: rest) = (reader.next char).bind fun behind => behind.read rest := rfl

theorem read_append (reader : Reader) (first second : List Char) :
    reader.read (first ++ second) =
      (reader.read first).bind fun between => between.read second := by
  induction first generalizing reader with
  | nil => rfl
  | cons char rest rest_read =>
    rw [cons_append, read_cons, read_cons, Option.bind_assoc]
    congr 1
    funext between
    exact rest_read between

theorem closing_under {bracket : Char} {opened : List Char} {behind : Reader} (outer : List Char)
    (closes : closing bracket opened = some behind) :
    closing bracket (opened ++ outer) = some (behind.under outer) := by
  cases opened with
  | nil => cases closes
  | cons innermost rest =>
    rw [closing] at closes
    rw [cons_append, closing]
    split at closes
    · cases closes
      rw [if_pos ‹_›]
      rfl
    · cases closes

theorem ite_under {condition : Prop} [Decidable condition] {outer : List Char}
    {first second firstUnder secondUnder : Option Reader}
    (left : ∀ behind, first = some behind → firstUnder = some (behind.under outer))
    (right : ∀ behind, second = some behind → secondUnder = some (behind.under outer)) :
    ∀ behind, (if condition then first else second) = some behind →
      (if condition then firstUnder else secondUnder) = some (behind.under outer) := by
  split
  · exact left
  · exact right

theorem next_under (outer : List Char) (step : reader.next char = some behind) :
    (reader.under outer).next char = some (behind.under outer) := by
  have stays (here : Reader) :
      ∀ behind, some here = some behind → some (here.under outer) = some (behind.under outer) := by
    rintro _ ⟨⟩
    rfl
  have fails : ∀ behind : Reader, none = some behind → none = some (behind.under outer) := nofun
  cases reader with
  | code opened =>
    have closes (bracket : Char) := fun behind => @closing_under bracket opened behind outer
    simp only [next, under] at step ⊢
    exact ite_under (stays (.code (char :: opened))) (ite_under (closes '(') (ite_under (closes '[')
      (ite_under (closes '\x7b') (ite_under (stays (.literal opened))
        (ite_under fails (stays (.code opened))))))) behind step
  | literal opened =>
    simp only [next, under] at step ⊢
    exact ite_under fails (ite_under (stays (.code opened)) (ite_under (stays (.escaped opened))
      (stays (.literal opened)))) behind step
  | escaped opened =>
    simp only [next, under] at step ⊢
    exact ite_under fails (stays (.literal opened)) behind step

theorem read_under {chars : List Char} (outer : List Char)
    (step : reader.read chars = some behind) :
    (reader.under outer).read chars = some (behind.under outer) := by
  induction chars generalizing reader with
  | nil =>
    cases step
    rfl
  | cons char rest rest_read =>
    rw [read_cons] at step ⊢
    obtain ⟨between, first, second⟩ := bind_eq_some_iff.mp step
    rw [next_under outer first, bind_some]
    exact rest_read second

theorem next_code_of_unmarked (plain : marks.contains char = false)
    (opened : List Char) : (Reader.code opened).next char = some (.code opened) := by
  simp only [marks, contains_eq_mem, mem_cons, not_mem_nil, or_false,
    decide_eq_false_iff_not, not_or] at plain
  simp [next, plain]

-- The steps below are proved through this lemma and not by computation: `simp` would take them
-- for unfoldings then, and comparing two unfolded runs goes through the whole text at each step.
theorem read_of_next (step : reader.next char = some behind)
    (rest : List Char) : reader.read (char :: rest) = behind.read rest := by
  rw [read_cons, step, bind_some]

@[simp] theorem read_unmarked (plain : marks.contains char = false) (opened rest : List Char) :
    (Reader.code opened).read (char :: rest) = (Reader.code opened).read rest :=
  read_of_next (next_code_of_unmarked plain opened) rest

variable (opened rest : List Char)

@[simp] theorem read_open_parenthesis :
    (Reader.code opened).read ('(' :: rest) = (Reader.code ('(' :: opened)).read rest :=
  read_of_next rfl rest

@[simp] theorem read_open_bracket :
    (Reader.code opened).read ('[' :: rest) = (Reader.code ('[' :: opened)).read rest :=
  read_of_next rfl rest

@[simp] theorem read_open_brace :
    (Reader.code opened).read ('\x7b' :: rest) = (Reader.code ('\x7b' :: opened)).read rest :=
  read_of_next rfl rest

@[simp] theorem read_close_parenthesis :
    (Reader.code ('(' :: opened)).read (')' :: rest) = (Reader.code opened).read rest :=
  read_of_next rfl rest

@[simp] theorem read_close_bracket :
    (Reader.code ('[' :: opened)).read (']' :: rest) = (Reader.code opened).read rest :=
  read_of_next rfl rest

@[simp] theorem read_close_brace :
    (Reader.code ('\x7b' :: opened)).read ('\x7d' :: rest) = (Reader.code opened).read rest :=
  read_of_next rfl rest

/-- No blank leads out of a literal, so blanks that end outside of literals started there, with
the same brackets open. -/
theorem eq_code_of_blanks {reader : Reader} {opened chars : List Char}
    (blanks : ∀ char ∈ chars, isBlank char)
    (ends : reader.read chars = some (.code opened)) : reader = .code opened := by
  have other {mark char : Char} (listed : mark ∈ '\\' :: marks) (blank : isBlank char) :
      char ≠ mark := by
    rintro rfl
    have none : ('\\' :: marks).all fun mark => !isBlank mark := by decide
    simpa [blank] using all_eq_true.mp none _ listed
  induction chars generalizing reader with
  | nil => exact Option.some.inj ends
  | cons char rest rest_ends =>
    have blank := blanks char (.head _)
    rw [read_cons] at ends
    obtain ⟨between, step, behind⟩ := bind_eq_some_iff.mp ends
    have settled := rest_ends (fun one member => blanks one (.tail _ member)) behind
    rw [settled] at step
    cases reader with
    | code before =>
      have plain : marks.contains char = false := by
        simpa using fun mark : char ∈ marks => other (mem_cons_of_mem _ mark) blank rfl
      rw [next_code_of_unmarked plain] at step
      exact Option.some.inj step
    | literal before =>
      rw [next, if_neg (other (by decide : '"' ∈ '\\' :: marks) blank),
        if_neg (other (by decide : '\\' ∈ '\\' :: marks) blank)] at step
      split at step <;> cases step
    | escaped before =>
      rw [next] at step
      split at step <;> cases step

end Reader

/-- A text whose literals end on their lines and whose brackets are all closed, each by one of
its kind. -/
def Balanced (text : String) : Prop := (Reader.code []).read text.toList = some (.code [])

instance (text : String) : Decidable (Balanced text) := inferInstanceAs (Decidable (_ = _))

namespace Balanced

variable {text first second : String}

theorem read (balanced : Balanced text) (opened : List Char) :
    (Reader.code opened).read text.toList = some (.code opened) :=
  Reader.read_under opened balanced

theorem read_append (balanced : Balanced text) (opened rest : List Char) :
    (Reader.code opened).read (text.toList ++ rest) = (Reader.code opened).read rest := by
  rw [Reader.read_append, balanced.read, bind_some]

theorem append (one : Balanced first) (other : Balanced second) : Balanced (first ++ second) := by
  rw [Balanced, String.toList_append, one.read_append, other.read]

end Balanced

section Texts

variable {text : String}

theorem Unmarked.balanced (plain : Unmarked text) : Balanced text := by
  have skipped (chars : List Char) (none : chars.all fun char => !marks.contains char) :
      (Reader.code []).read chars = some (.code []) := by
    induction chars with
    | nil => rfl
    | cons char rest rest_read =>
      rw [all_cons, Bool.and_eq_true, Bool.not_eq_true'] at none
      rw [Reader.read_cons, Reader.next_code_of_unmarked none.1, bind_some]
      exact rest_read none.2
  exact skipped text.toList plain

theorem unmarked_iff : Unmarked text ↔ ∀ char ∈ text.toList, char ∉ marks := by
  simp [Unmarked]

theorem Unmarked.append {first second : String} (one : Unmarked first) (other : Unmarked second) :
    Unmarked (first ++ second) := by
  rw [unmarked_iff] at *
  intro char member
  rw [String.toList_append, mem_append] at member
  exact member.elim (one char) (other char)

theorem Unmarked.mono {first second : String} (plain : Unmarked second)
    (subset : ∀ char ∈ first.toList, char ∈ second.toList) : Unmarked first := by
  rw [unmarked_iff] at *
  exact fun char member => plain char (subset char member)

theorem unmarked_of_forall (accepts : Char → Bool) (refuses : marks.all fun mark => !accepts mark)
    (accepted : ∀ char ∈ text.toList, accepts char) : Unmarked text := by
  rw [unmarked_iff]
  intro char member mark
  have refused := all_eq_true.mp refuses char mark
  simp [accepted char member] at refused

theorem balanced_joinWith (between : Balanced separator) (each : ∀ part ∈ parts, Balanced part) :
    Balanced (joinWith separator parts) := by
  induction parts with
  | nil => exact rfl
  | cons part rest rest_balanced =>
    cases rest with
    | nil => exact each part (.head _)
    | cons other others =>
      rw [joinWith]
      exact ((each part (.head _)).append between).append
        (rest_balanced fun one member => each one (.tail _ member))

theorem unmarked_joinWith (between : Unmarked separator) (each : ∀ part ∈ parts, Unmarked part) :
    Unmarked (joinWith separator parts) := by
  induction parts with
  | nil => exact rfl
  | cons part rest rest_unmarked =>
    cases rest with
    | nil => exact each part (.head _)
    | cons other others =>
      rw [joinWith]
      exact ((each part (.head _)).append between).append
        (rest_unmarked fun one member => each one (.tail _ member))

theorem read_escapeChar (char : Char) (opened : List Char) :
    (Reader.literal opened).read (escapeChar char) = some (.literal opened) := by
  have digit (value : Nat) : (Reader.literal opened).next (Json.hexDigit value) =
      some (.literal opened) := by
    obtain ⟨noNewline, noQuote, noBackslash⟩ := hexDigit_plain value
    rw [Reader.next, if_neg noNewline, if_neg noQuote, if_neg noBackslash]
  have start : (Reader.literal opened).read ['\\', 'u', '0', '0'] = some (.literal opened) := rfl
  unfold escapeChar
  repeat' split
  iterate 7 rfl
  · change (Reader.literal opened).read (['\\', 'u', '0', '0'] ++ _) = _
    rw [Reader.read_append, start, bind_some, Reader.read_cons, digit, bind_some,
      Reader.read_cons, digit]
    rfl
  · rename_i noQuote noBackslash noNewline _ _ _ _ _
    rw [Reader.read_cons, Reader.next, if_neg noNewline, if_neg noQuote, if_neg noBackslash]
    rfl

theorem balanced_quote (text : String) : Balanced (quote text) := by
  have inside (chars : List Char) : (Reader.literal []).read (chars.flatMap escapeChar) =
      some (.literal []) := by
    induction chars with
    | nil => rfl
    | cons char rest rest_read =>
      rw [flatMap_cons, Reader.read_append, read_escapeChar, bind_some, rest_read]
  rw [Balanced, toList_quote, Reader.read_cons]
  change (Reader.literal []).read _ = _
  rw [Reader.read_append, inside]
  rfl

theorem unmarked_of_isIdentifier {name : String} (legal : isIdentifier name) : Unmarked name := by
  obtain ⟨first, rest, chars, _, words, _⟩ := isIdentifier_iff.mp legal
  apply unmarked_of_forall isWordChar (by decide)
  rwa [chars]

theorem unmarked_sanitize (name : String) : Unmarked (sanitize name) :=
  unmarked_of_isIdentifier (isIdentifier_sanitize name)

theorem unmarked_toString (number : Nat) : Unmarked (toString number) := by
  apply unmarked_of_forall Char.isDigit (by decide)
  intro char member
  rw [Nat.toString_eq_ofList_toDigits, String.toList_ofList] at member
  exact Nat.isDigit_of_mem_toDigits (by decide) (by decide) member

theorem balanced_parenthesize {expression : String} (balanced : Balanced expression) :
    Balanced (parenthesize expression) := by
  rw [parenthesize]
  split
  · exact balanced
  · simp +decide [Balanced, balanced.read_append]

theorem balanced_trimEnd (balanced : Balanced text) : Balanced (trimEnd text) := by
  have whole : text.toList = (trimEnd text).toList ++
      (text.toList.reverse.takeWhile isBlank).reverse := by
    rw [trimEnd, String.toList_ofList, Text.dropBlanksEnd, ← reverse_append,
      takeWhile_append_dropWhile, reverse_reverse]
  have blanks : ∀ char ∈ (text.toList.reverse.takeWhile isBlank).reverse,
      isBlank char := fun char member =>
    mem_takeWhile_imp (mem_reverse.mp member)
  rw [Balanced, whole, Reader.read_append] at balanced
  obtain ⟨between, front, back⟩ := bind_eq_some_iff.mp balanced
  rw [Balanced, front, Reader.eq_code_of_blanks blanks back]

end Texts

namespace Code

mutual

/-- The brackets open behind a piece of code; every line must end outside of literals. -/
def read (opened : List Char) : Code → Option (List Char)
  | .line text => ((Reader.code opened).read text.toList).bind Reader.settled
  | .nest body => readAll opened body

def readAll (opened : List Char) : List Code → Option (List Char)
  | [] => some opened
  | code :: rest => (read opened code).bind fun behind => readAll behind rest

end

def Closed (code : List Code) : Prop := readAll [] code = some []

@[simp] theorem readAll_nil (opened : List Char) : readAll opened [] = some opened := by
  rw [readAll]

@[simp] theorem readAll_line (opened : List Char) (text : String) (rest : List Code) :
    readAll opened (.line text :: rest) =
      (((Reader.code opened).read text.toList).bind Reader.settled).bind fun behind =>
        readAll behind rest := by
  rw [readAll, read]

@[simp] theorem readAll_nest (opened : List Char) (body rest : List Code) :
    readAll opened (.nest body :: rest) =
      (readAll opened body).bind fun behind => readAll behind rest := by
  rw [readAll, read]

theorem readAll_append (opened : List Char) (first second : List Code) :
    readAll opened (first ++ second) =
      (readAll opened first).bind fun between => readAll between second := by
  induction first generalizing opened with
  | nil => rw [nil_append, readAll_nil, bind_some]
  | cons code rest rest_read =>
    rw [cons_append, readAll, readAll, Option.bind_assoc]
    congr 1
    funext between
    exact rest_read between

mutual

theorem read_under {opened behind : List Char} (outer : List Char) :
    (code : Code) → read opened code = some behind →
      read (opened ++ outer) code = some (behind ++ outer)
  | .line text, step => by
    rw [read] at step ⊢
    obtain ⟨reader, ends, settles⟩ := bind_eq_some_iff.mp step
    cases reader with
    | code within =>
      have wider := Reader.read_under outer ends
      rw [Reader.under] at wider
      rw [wider]
      cases settles
      rfl
    | literal within | escaped within => cases settles
  | .nest body, step => by
    rw [read] at step ⊢
    exact readAll_under outer body step

theorem readAll_under {opened behind : List Char} (outer : List Char) :
    (codes : List Code) → readAll opened codes = some behind →
      readAll (opened ++ outer) codes = some (behind ++ outer)
  | [], step => by
    rw [readAll_nil] at step ⊢
    cases step
    rfl
  | code :: rest, step => by
    rw [readAll] at step ⊢
    obtain ⟨between, first, second⟩ := bind_eq_some_iff.mp step
    rw [read_under outer code first, bind_some]
    exact readAll_under outer rest second

end

namespace Closed

variable {code first second : List Code}

theorem read (closed : Closed code) (opened : List Char) : readAll opened code = some opened :=
  readAll_under opened code closed

theorem read_append (closed : Closed code) (opened : List Char) (rest : List Code) :
    readAll opened (code ++ rest) = readAll opened rest := by
  rw [Code.readAll_append, closed.read, bind_some]

theorem append (one : Closed first) (other : Closed second) : Closed (first ++ second) := by
  rw [Closed, one.read_append, other.read]

theorem flatten {codes : List (List Code)} (each : ∀ code ∈ codes, Closed code) :
    Closed codes.flatten := by
  induction codes with
  | nil => exact readAll_nil []
  | cons code rest rest_closed =>
    exact (each code (.head _)).append (rest_closed fun other member => each other (.tail _ member))

end Closed

theorem closed_lines {texts : List String} (each : ∀ text ∈ texts, Balanced text) :
    Closed (texts.map .line) := by
  induction texts with
  | nil => exact readAll_nil []
  | cons text rest rest_closed =>
    have others : Closed (rest.map .line) :=
      rest_closed fun other member => each other (.tail _ member)
    have first : (Reader.code []).read text.toList = some (.code []) := each text (.head _)
    rw [Closed, map_cons, readAll_line, first]
    exact others

theorem closed_block {header : String} {body : List Code} (head : Balanced header)
    (inside : Closed body) : Closed (block header body) := by
  simp +decide [Closed, block, head.read_append, inside.read]

section Written

variable {margin : String}

theorem read_placed (plain : Unmarked margin) (opened : List Char) (line : String) :
    (Reader.code opened).read (Writer.placed margin line).toList =
      (Reader.code opened).read line.toList := by
  rw [Writer.placed]
  split
  · rename_i empty
    rw [empty]
  · rw [String.toList_append, plain.balanced.read_append]

/-- A text that ends outside of literals does so at the end of each of its lines, so it may be
placed line by line. -/
theorem readAll_placed (plain : Unmarked margin) {pieces : List String} {opened behind : List Char}
    (ends : (Reader.code opened).read (Text.joinWith "\n" pieces).toList = some (.code behind)) :
    readAll opened ((pieces.map (Writer.placed margin)).map .line) = some behind := by
  induction pieces generalizing opened with
  | nil =>
    cases ends
    exact readAll_nil _
  | cons piece rest rest_read =>
    rw [map_cons, map_cons, readAll_line, read_placed plain]
    cases rest with
    | nil =>
      rw [Text.joinWith] at ends
      rw [ends]
      exact readAll_nil behind
    | cons next others =>
      rw [Text.joinWith, String.toList_append, String.toList_append, append_assoc,
        Reader.read_append] at ends
      obtain ⟨reader, here, later⟩ := bind_eq_some_iff.mp ends
      cases reader with
      | code between =>
        rw [here]
        exact rest_read later
      | literal between | escaped between => cases later

theorem read_joinWith {lines : List String} {opened behind : List Char}
    (ends : readAll opened (lines.map .line) = some behind) :
    (Reader.code opened).read (Text.joinWith "\n" lines).toList = some (.code behind) := by
  induction lines generalizing opened with
  | nil =>
    rw [map_nil, readAll_nil] at ends
    cases ends
    rfl
  | cons line rest rest_read =>
    rw [map_cons, readAll_line] at ends
    obtain ⟨between, here, later⟩ := bind_eq_some_iff.mp ends
    obtain ⟨reader, step, settles⟩ := bind_eq_some_iff.mp here
    cases reader with
    | code within =>
      cases settles
      cases rest with
      | nil =>
        rw [map_nil, readAll_nil] at later
        cases later
        exact step
      | cons next others =>
        rw [Text.joinWith, String.toList_append, String.toList_append, append_assoc,
          Reader.read_append, step]
        exact rest_read later
    | literal within | escaped within => cases settles

theorem unmarked_copies (plain : Unmarked unit) (count : Nat) :
    Unmarked (Text.copies unit count) := by
  induction count with
  | zero => exact rfl
  | succ count fewer => exact plain.append fewer

mutual

theorem exists_written (writer : Writer) (plain : Unmarked writer.unit)
    {opened behind : List Char} : (code : Code) → read opened code = some behind →
      ∃ more, (code.write writer).lines = writer.lines ++ more ∧
        (code.write writer).unit = writer.unit ∧
        readAll opened (more.map .line) = some behind
  | .line text, ends => by
    rw [read] at ends
    obtain ⟨reader, step, settles⟩ := bind_eq_some_iff.mp ends
    cases reader with
    | code within =>
      cases settles
      rw [← Text.joinWith_splitOn '\n' text] at step
      rw [Code.write, Writer.line]
      exact ⟨_, rfl, rfl, readAll_placed (unmarked_copies plain writer.level) step⟩
    | literal within | escaped within => cases settles
  | .nest body, ends => by
    rw [read] at ends
    rw [Code.write, Writer.dedent]
    exact exists_writtenAll writer.indent plain body ends

theorem exists_writtenAll (writer : Writer) (plain : Unmarked writer.unit)
    {opened behind : List Char} : (codes : List Code) → readAll opened codes = some behind →
      ∃ more, (writeAll writer codes).lines = writer.lines ++ more ∧
        (writeAll writer codes).unit = writer.unit ∧
        readAll opened (more.map .line) = some behind
  | [], ends => by
    rw [writeAll]
    exact ⟨[], (append_nil _).symm, rfl, ends⟩
  | code :: rest, ends => by
    rw [readAll] at ends
    obtain ⟨between, first, second⟩ := bind_eq_some_iff.mp ends
    obtain ⟨here, lines, unit, here_read⟩ := exists_written writer plain code first
    obtain ⟨later, later_lines, later_unit, later_read⟩ :=
      exists_writtenAll (code.write writer) (unit ▸ plain) rest second
    refine ⟨here ++ later, ?_, ?_, ?_⟩
    · rw [writeAll, later_lines, lines, append_assoc]
    · rw [writeAll, later_unit, unit]
    · rw [map_append, readAll_append, here_read, bind_some, later_read]

end

theorem balanced_render (plain : Unmarked unit) {code : List Code}
    (closed : Closed code) : Balanced (render unit code) := by
  obtain ⟨lines, written, _, ends⟩ := exists_writtenAll (Writer.empty unit) plain code closed
  rw [render, Writer.finish, written]
  exact read_joinWith ends

end Written

end Code

end Haxify.Haxe
