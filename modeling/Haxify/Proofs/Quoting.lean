import Haxify.Haxe.Quoted
import Haxify.Haxe.Writer
import Haxify.Proofs.Escapes
import Haxify.Proofs.Text

/-!
# Quoted texts

The literal of a text is a quote, one element for each character of the text, and a quote. An
element is the character itself or one of a few escapes, and resolving it gives the character
back. No control character is written, so a literal stands on one line wherever it is spliced.
-/

namespace Haxify.Haxe

open Json (hexDigit printChar)
open Text (pieces splitOn)
open TypeScript

variable {char : Char} {element : Element} {separates : Char → Bool} {chars : List Char}

/-- The elements that literals are written with: any visible character but a quote, the escapes
of the quote, the backslash, the ends of lines and the tab, and those with two or four digits. -/
def isWritten : Element → Bool
  | .plain char _ => char != '"' && 0x20 ≤ char.toNat
  | .letter sign _ _ => ['"', '\\', 'n', 'r', 't'].contains sign
  | .byte .. | .unit .. => true
  | _ => false

section Characters

/-- How one character is written inside a literal. -/
def escapeChar (char : Char) : List Char :=
  if char = '"' then ['\\', '"']
  else if char = '\\' then ['\\', '\\']
  else if char = '\n' then ['\\', 'n']
  else if char = '\r' then ['\\', 'r']
  else if char = '\t' then ['\\', 't']
  else if char = '\x08' then ['\\', 'x', '0', '8']
  else if char = '\x0c' then ['\\', 'x', '0', 'C']
  else if char.toNat < 0x20 then
    ['\\', 'u', '0', '0', hexDigit (char.toNat / 16), hexDigit char.toNat]
  else [char]

/-- The element for a digit of a number. -/
def lowerDigit (value : Nat) : HexDigit :=
  ⟨⟨value % 16, Nat.mod_lt value (by decide)⟩, (value % 16).digitChar, .head _⟩

theorem hexDigit_plain (value : Nat) : hexDigit value ≠ '\n' ∧ hexDigit value ≠ '"' ∧
    hexDigit value ≠ '\\' := by
  have each : ∀ small : Fin 16, (Nat.toDigits 16 small).headD '0' ∉ ['\n', '"', '\\'] := by decide
  simpa [hexDigit] using each ⟨value % 16, Nat.mod_lt value (by decide)⟩

theorem hexDigit_eq (value : Nat) : hexDigit value = (lowerDigit value).char := by
  rw [hexDigit, Nat.toDigits_of_lt_base (Nat.mod_lt value (by decide))]
  rfl

theorem namedChar_lowerDigits (control : char.toNat < 0x20) :
    namedChar ['\\', 'u'] ([lowerDigit 0, lowerDigit 0, lowerDigit (char.toNat / 16),
      lowerDigit char.toNat].map HexDigit.char) = [char] := by
  have number : hexTotal [lowerDigit 0, lowerDigit 0, lowerDigit (char.toNat / 16),
      lowerDigit char.toNat] = char.toNat := by
    simp only [hexTotal, lowerDigit, List.foldl_cons, List.foldl_nil]
    omega
  have whole : Element.isSurrogate char.toNat = false :=
    (isValidChar_iff (by omega)).mp (.inl (by omega))
  rw [namedChar_map _ (List.cons_ne_nil _ _) (by omega), number, whole, if_neg Bool.false_ne_true,
    Char.ofNat_toNat]

theorem escapeChar_eq_spelled (char : Char) : ∃ element : Element, isWritten element ∧
    element.spelled = escapeChar char ∧ element.decoded = [char] := by
  unfold escapeChar
  split
  · subst char; exact ⟨.letter '"' '"' (by decide), rfl, rfl, rfl⟩
  split
  · subst char; exact ⟨.letter '\\' '\\' (by decide), rfl, rfl, rfl⟩
  split
  · subst char; exact ⟨.letter 'n' '\n' (by decide), rfl, rfl, rfl⟩
  split
  · subst char; exact ⟨.letter 'r' '\r' (by decide), rfl, rfl, rfl⟩
  split
  · subst char; exact ⟨.letter 't' '\t' (by decide), rfl, rfl, rfl⟩
  split
  · subst char; exact ⟨.byte (lowerDigit 0) (lowerDigit 8), rfl, rfl, rfl⟩
  split
  · subst char; exact ⟨.byte (lowerDigit 0) ⟨12, 'C', by decide⟩, rfl, rfl, rfl⟩
  split
  · refine ⟨.unit (lowerDigit 0) (lowerDigit 0) (lowerDigit (char.toNat / 16))
      (lowerDigit char.toNat), rfl, ?_, namedChar_lowerDigits ‹_›⟩
    rw [hexDigit_eq, hexDigit_eq]
    rfl
  · refine ⟨.plain char ?_, ?_, rfl, rfl⟩ <;> simp_all [isWritten]

theorem visible_of_hexForms : ∀ value : Fin 16, (Json.hexForms value).all (0x20 ≤ ·.toNat) := by
  decide

theorem HexDigit.le_toNat_char (digit : HexDigit) : 0x20 ≤ digit.char.toNat :=
  of_decide_eq_true (List.all_eq_true.mp (visible_of_hexForms digit.value) _ digit.spells)

theorem le_toNat_of_mem_spelled (written : isWritten element)
    (member : char ∈ element.spelled) : 0x20 ≤ char.toNat := by
  have byDigit := HexDigit.le_toNat_char
  cases element with
  | plain other allowed =>
    obtain rfl := List.mem_singleton.mp member
    exact of_decide_eq_true (Bool.and_eq_true_iff.mp written).2
  | letter sign value listed =>
    have all : ['\\', '"', 'n', 'r', 't'].all (0x20 ≤ ·.toNat) := by decide
    have visible := fun sign member => of_decide_eq_true (List.all_eq_true.mp all sign member)
    have named : sign ∈ ['"', '\\', 'n', 'r', 't'] := List.contains_iff_mem.mp written
    rcases List.mem_cons.mp member with rfl | second
    · exact visible _ (by decide)
    · obtain rfl := List.mem_singleton.mp second
      exact visible char (by simpa [or_left_comm] using named)
  | byte first second =>
    simp only [Element.spelled, List.mem_cons, List.not_mem_nil, or_false] at member
    rcases member with rfl | rfl | rfl | rfl <;> first | decide | exact byDigit _
  | unit first second third fourth =>
    simp only [Element.spelled, List.mem_cons, List.not_mem_nil, or_false] at member
    rcases member with rfl | rfl | rfl | rfl | rfl | rfl <;> first | decide | exact byDigit _
  | null | codePoint | continuation | itself => cases written

theorem isNull_of_isWritten (written : isWritten element) : element.isNull = false := by
  cases element with
  | null => cases written
  | _ => rfl

end Characters

section Literals

theorem flatMap_escapeChar_eq_spelled (chars : List Char) : ∃ body : List Element,
    (∀ element ∈ body, isWritten element) ∧ areSeparate body ∧
      body.flatMap Element.spelled = chars.flatMap escapeChar ∧
      body.flatMap Element.decoded = chars := by
  induction chars with
  | nil => exact ⟨[], nofun, rfl, rfl, rfl⟩
  | cons char rest rest_written =>
    obtain ⟨element, written, spelled, decoded⟩ := escapeChar_eq_spelled char
    obtain ⟨body, all, separate, spelled_rest, decoded_rest⟩ := rest_written
    refine ⟨element :: body, List.forall_mem_cons.mpr ⟨written, all⟩, ?_, ?_, ?_⟩
    · rw [areSeparate, isNull_of_isWritten written, separate]
      rfl
    · rw [List.flatMap_cons, List.flatMap_cons, spelled, spelled_rest]
    · rw [List.flatMap_cons, decoded, decoded_rest, List.singleton_append]

theorem respelled_cons (other : char ≠ '\\') (rest : List Char) :
    respelled (char :: rest) = char :: respelled rest := by
  cases rest with
  | nil => rfl
  | cons next rest => rw [respelled, if_neg other]

theorem respelled_printChar (char : Char) (rest : List Char) :
    respelled (printChar char ++ rest) = escapeChar char ++ respelled rest := by
  have digit (value : Nat) := (hexDigit_plain value).2.2
  unfold printChar escapeChar
  iterate 7 (split; · subst char; rfl)
  split
  · simp only [List.cons_append, List.nil_append]
    rw [respelled, if_pos rfl, respelled_cons (by decide), respelled_cons (by decide),
      respelled_cons (digit _), respelled_cons (digit _)]
    rfl
  · exact respelled_cons ‹_› rest

theorem toList_quote (text : String) :
    (quote text).toList = '"' :: (text.toList.flatMap escapeChar ++ ['"']) := by
  rw [quote, String.toList_ofList, Json.printString, String.toList_ofList,
    respelled_cons (by decide)]
  congr 1
  induction text.toList with
  | nil => rfl
  | cons char rest rest_spelled =>
    rw [List.flatMap_cons, List.flatMap_cons, List.append_assoc, respelled_printChar, rest_spelled,
      List.append_assoc]

theorem unquote_quoted (chars : List Char) : unquote ('"' :: (chars ++ ['"'])) = chars := by
  obtain ⟨second, rest, split⟩ := List.exists_cons_of_ne_nil
    (List.append_ne_nil_of_right_ne_nil chars (List.cons_ne_nil '"' []))
  have last : (second :: rest).getLast? = some '"' := split ▸ List.getLast?_concat
  rw [split, unquote, last, ← split]
  simp

theorem pieces_append
    (whole : ∀ char ∈ chars, separates char = false) {after last : List Char}
    {later : List (List Char)} (cut : pieces separates after = last :: later) :
    pieces separates (chars ++ after) = (chars ++ last) :: later := by
  induction chars with
  | nil => exact cut
  | cons char rest rest_cut =>
    obtain ⟨here, behind⟩ := List.forall_mem_cons.mp whole
    rw [List.cons_append, pieces, here, rest_cut behind]
    rfl

theorem pieces_around (whole : ∀ char ∈ chars, separates char = false) (before after : List Char) :
    ∃ earlier first last later, pieces separates before = earlier ++ [first] ∧
      pieces separates after = last :: later ∧
      pieces separates (before ++ chars ++ after) =
        earlier ++ (first ++ chars ++ last) :: later := by
  induction before with
  | nil =>
    cases cut : pieces separates after with
    | nil => exact absurd (Text.pieces_eq_splitOnP .. ▸ cut) (List.splitOnP_ne_nil _ _)
    | cons last later => exact ⟨[], [], last, later, rfl, rfl, pieces_append whole cut⟩
  | cons char rest rest_around =>
    obtain ⟨earlier, first, last, later, front, back, all⟩ := rest_around
    rw [List.cons_append, List.cons_append, pieces, pieces, front, back, all]
    by_cases cuts : separates char
    · exact ⟨[] :: earlier, first, last, later, if_pos cuts, rfl, if_pos cuts⟩
    · rw [if_neg cuts, if_neg cuts]
      cases earlier with
      | nil => exact ⟨[], char :: first, last, later, rfl, rfl, rfl⟩
      | cons piece others => exact ⟨(char :: piece) :: others, first, last, later, rfl, rfl, rfl⟩

theorem splitOn_around {separator : Char} {text : String} (whole : separator ∉ text.toList)
    (before after : String) :
    ∃ earlier first last later, splitOn separator before = earlier ++ [first] ∧
      splitOn separator after = last :: later ∧
      splitOn separator (before ++ text ++ after) =
        earlier ++ (first ++ text ++ last) :: later := by
  have apart : ∀ char ∈ text.toList, (char == separator) = false := by
    intro char member
    exact beq_eq_false_iff_ne.mpr fun same => whole (same ▸ member)
  obtain ⟨earlier, first, last, later, front, back, all⟩ :=
    pieces_around apart before.toList after.toList
  refine ⟨earlier.map .ofList, .ofList first, .ofList last, later.map .ofList, ?_, ?_, ?_⟩
  · rw [splitOn, front, List.map_append, List.map_singleton]
  · rw [splitOn, back, List.map_cons]
  · rw [splitOn, String.toList_append, String.toList_append, all, List.map_append,
      List.map_cons, String.ofList_append, String.ofList_append, String.ofList_toList]

/-- A literal gives its text back, has no quote inside that is not escaped and no control
character, and is written with few escapes. So wherever it is spliced into a text that a writer
takes line by line, it comes out in one line as it is, behind the rest of its line. -/
theorem quote_is_lossless_on_one_line (text : String) :
    decodeLiteral (quote text) = text ∧
    (∃ body : List Element, (∀ element ∈ body, isWritten element) ∧
      (quote text).toList = '"' :: (body.flatMap Element.spelled ++ ['"'])) ∧
    (∀ char ∈ (quote text).toList, 0x20 ≤ char.toNat) ∧
    ∀ (writer : Writer) (before after : String), ∃ earlier first last later,
      splitOn '\n' before = earlier ++ [first] ∧ splitOn '\n' after = last :: later ∧
      (writer.line (before ++ quote text ++ after)).lines =
        writer.lines ++ earlier.map (Writer.placed writer.margin) ++
          (writer.margin ++ (first ++ quote text ++ last)) ::
            later.map (Writer.placed writer.margin) := by
  obtain ⟨body, written, separate, spelled, decoded⟩ := flatMap_escapeChar_eq_spelled text.toList
  have visible : ∀ char ∈ (quote text).toList, 0x20 ≤ char.toNat := by
    intro char member
    rw [toList_quote, ← spelled, List.mem_cons, List.mem_append, List.mem_flatMap,
      List.mem_singleton] at member
    rcases member with rfl | ⟨element, inside, among⟩ | rfl
    · decide
    · exact le_toNat_of_mem_spelled (written element inside) among
    · decide
  refine ⟨?_, ⟨body, written, ?_⟩, visible, fun writer before after => ?_⟩
  · rw [decodeLiteral, toList_quote, unquote_quoted, ← spelled, decodeChars_spelled separate,
      decoded, String.ofList_toList]
  · rw [toList_quote, spelled]
  · have single : '\n' ∉ (quote text).toList := fun member => absurd (visible _ member) (by decide)
    obtain ⟨earlier, first, last, later, front, back, all⟩ := splitOn_around single before after
    have shown : first ++ quote text ++ last ≠ "" := by
      intro empty
      have chars := congrArg String.toList empty
      simp [toList_quote] at chars
    refine ⟨earlier, first, last, later, front, back, ?_⟩
    rw [Writer.line, all, List.map_append, List.map_cons, Writer.placed, if_neg shown,
      List.append_assoc]

end Literals

end Haxify.Haxe
