import Haxify.Proofs.JsonPrintings

/-!
# Reading undoes printing

The lexemes of a printed value lead the reader through the value, whatever containers it stands
in, and what was written in its strings and numbers has the value it was printed for. Main
statement: every printing of a value is read as that value.
-/

namespace Haxify.Json

open List

variable {form : List Char} {value : Json} {key : String} {members : List (String × Json)}

section Strings

variable {chars written : List Char} {char : Char} {unit : Nat}

theorem hexForms_read : ∀ digit < 16, (hexForms digit).all fun char =>
    isHexDigit char && TypeScript.hexValue? char == some digit := by
  decide

theorem hexValue?_of_mem {digit : Nat} (form : char ∈ hexForms (digit % 0x10)) :
    isHexDigit char ∧ TypeScript.hexValue? char = some (digit % 0x10) := by
  have all := all_eq_true.mp (hexForms_read (digit % 0x10) (Nat.mod_lt _ (by decide))) char form
  simpa using all

theorem readString_unit (digits : WrittenUnit unit written) (rest : List Char) :
    readString (written ++ rest) =
      (readString rest).map fun found => (written ++ found.1, found.2) := by
  obtain ⟨first, second, third, fourth⟩ := digits
  have all : [_, _, _, _].all isHexDigit :=
    all_eq_true.mpr fun char member => by
      simp only [mem_cons, not_mem_nil, or_false] at member
      rcases member with rfl | rfl | rfl | rfl
      · exact (hexValue?_of_mem first).1
      · exact (hexValue?_of_mem second).1
      · exact (hexValue?_of_mem third).1
      · exact (hexValue?_of_mem fourth).1
  exact if_pos all

theorem shortEscapes_read : shortEscapes.all fun entry =>
    isSimpleEscape entry.1 && entry.1 != 'u' && simpleEscape entry.1 == entry.2 := by
  decide

theorem simpleEscape_of_mem {letter : Char} (listed : (letter, char) ∈ shortEscapes) :
    isSimpleEscape letter ∧ letter ≠ 'u' ∧ simpleEscape letter = char := by
  have known := all_eq_true.mp shortEscapes_read _ listed
  simpa [and_assoc] using known

theorem readString_char (written : WrittenChar char form) (rest : List Char) :
    readString (form ++ rest) = (readString rest).map fun found => (form ++ found.1, found.2) := by
  cases written with
  | plain visible noQuote noBackslash =>
    rw [singleton_append, readString]
    · rfl
    · exact noQuote
    · exact fun _ _ _ _ _ same => absurd same noBackslash
    · exact fun _ _ same => absurd same noBackslash
    · exact fun same => absurd same noBackslash
  | short listed =>
    obtain ⟨simple, other, _⟩ := simpleEscape_of_mem listed
    rw [cons_append, singleton_append, readString, if_pos simple]
    · rfl
    · exact fun _ _ _ _ _ same => absurd same other
  | unit single digits => exact readString_unit digits rest
  | pair double high low =>
    rw [append_assoc, readString_unit high, readString_unit low, Option.map_map]
    simp only [Function.comp_def, append_assoc]

theorem readString_chars (forms : WrittenChars chars written)
    (rest : List Char) : readString (written ++ '"' :: rest) = some (written, rest) := by
  induction forms with
  | nil => rfl
  | cons first _ others => rw [append_assoc, readString_char first, others]; rfl

theorem codeUnit_of_written {a b c d : Char}
    (digits : WrittenUnit unit ['\\', 'u', a, b, c, d]) (single : unit < 0x10000) :
    codeUnit [a, b, c, d] = unit := by
  obtain ⟨first, second, third, fourth⟩ := digits
  simp only [codeUnit, TypeScript.hexDigits?, (hexValue?_of_mem first).2,
    (hexValue?_of_mem second).2,
    (hexValue?_of_mem third).2, (hexValue?_of_mem fourth).2, Option.bind_some, Option.getD_some]
  omega

theorem unescape_unit (digits : WrittenUnit unit written)
    (single : unit < 0x10000) (noHigh : isHighSurrogate unit = false)
    (noLow : isLowSurrogate unit = false) (rest : List Char) :
    unescape (written ++ rest) = (unescape rest).map (Char.ofNat unit :: ·) := by
  cases digits with
  | digits first second third fourth =>
    have known := codeUnit_of_written (.digits first second third fourth) single
    simp only [cons_append, nil_append]
    -- Another code unit behind it is looked at, because it might be the second half of a pair.
    by_cases followed : ∃ e f g h others, rest = '\\' :: 'u' :: e :: f :: g :: h :: others
    · obtain ⟨e, f, g, h, others, rfl⟩ := followed
      rw [unescape]
      simp only [known, noHigh, noLow, Bool.false_eq_true, if_false]
    · rw [unescape]
      · simp only [known, noHigh, noLow, Bool.or_self, Bool.false_eq_true, if_false]
      · exact fun e f g h others same => followed ⟨e, f, g, h, others, same⟩

theorem unescape_pair {high low : Nat} {first second : List Char} (front : WrittenUnit high first)
    (back : WrittenUnit low second) (highSmall : high < 0x10000) (lowSmall : low < 0x10000)
    (isHigh : isHighSurrogate high) (isLow : isLowSurrogate low) (rest : List Char) :
    unescape (first ++ second ++ rest) = (unescape rest).map (pairedChar high low :: ·) := by
  cases front with
  | digits a b c d =>
    cases back with
    | digits e f g h =>
      have highUnit := codeUnit_of_written (.digits a b c d) highSmall
      have lowUnit := codeUnit_of_written (.digits e f g h) lowSmall
      simp only [cons_append, nil_append]
      rw [unescape]
      simp only [highUnit, lowUnit, isHigh, isLow, if_true]

theorem unescape_char (written : WrittenChar char form)
    (rest : List Char) : unescape (form ++ rest) = (unescape rest).map (char :: ·) := by
  have scalar : char.toNat < 0xD800 ∨ 0xDFFF < char.toNat ∧ char.toNat < 0x110000 := char.valid
  cases written with
  | plain visible noQuote noBackslash =>
    rw [singleton_append, unescape, if_neg (by omega)]
    · exact fun _ _ _ _ _ _ _ _ _ same => absurd same noBackslash
    · exact fun _ _ _ _ _ same => absurd same noBackslash
    · exact fun _ _ same => absurd same noBackslash
  | short listed =>
    obtain ⟨_, other, stands⟩ := simpleEscape_of_mem listed
    rw [cons_append, singleton_append, unescape, stands]
    · exact fun _ _ _ _ _ _ _ _ _ same => absurd same other
    · exact fun _ _ _ _ _ same => absurd same other
  | unit single digits =>
    have noHigh : isHighSurrogate char.toNat = false := by
      simp only [isHighSurrogate, Bool.and_eq_false_iff, decide_eq_false_iff_not]
      omega
    have noLow : isLowSurrogate char.toNat = false := by
      simp only [isLowSurrogate, Bool.and_eq_false_iff, decide_eq_false_iff_not]
      omega
    rw [unescape_unit digits single noHigh noLow, Char.ofNat_toNat]
  | pair double high low =>
    have isHigh : isHighSurrogate (0xD800 + (char.toNat - 0x10000) / 0x400) := by
      simp only [isHighSurrogate, Bool.and_eq_true, decide_eq_true_eq]
      omega
    have isLow : isLowSurrogate (0xDC00 + (char.toNat - 0x10000) % 0x400) := by
      simp only [isLowSurrogate, Bool.and_eq_true, decide_eq_true_eq]
      omega
    have code : 0x10000 + (0xD800 + (char.toNat - 0x10000) / 0x400 - 0xD800) * 0x400 +
        (0xDC00 + (char.toNat - 0x10000) % 0x400 - 0xDC00) = char.toNat := by
      omega
    rw [unescape_pair high low (by omega) (by omega) isHigh isLow, pairedChar, code,
      Char.ofNat_toNat]

theorem unescape_chars (forms : WrittenChars chars written) : unescape written = some chars := by
  induction forms with
  | nil => rw [unescape]
  | cons first _ others => rw [unescape_char first, others, Option.map_some]

theorem stringValue_written {value : String} (chars : WrittenChars value.toList written) :
    stringValue written = .ok value := by
  rw [stringValue, unescape_chars chars]
  exact congrArg Except.ok String.ofList_toList

end Strings

section Numbers

theorem ofDigits_toDigits (number : Nat) : Number.ofDigits (Nat.toDigits 10 number) = number := by
  have read := Nat.ofDigitChars_ten_toDigits (n := number)
  simpa only [Number.ofDigits, Nat.ofDigitChars, Nat.mul_comm] using read

theorem numberValue_toString {value : Int} (lower : -9223372036854775808 ≤ value)
    (upper : value ≤ 9223372036854775807) :
    numberValue (toString value).toList = .ok (.integer value) := by
  have all : (Nat.toDigits 10 value.natAbs).all Char.isDigit := all_eq_true.mpr fun _ member =>
    Nat.isDigit_of_mem_toDigits (by decide) (by decide) member
  have sign : readSign (toString value).toList =
      (if value < 0 then ['-'] else [], Nat.toDigits 10 value.natAbs) := by
    have digits := readSign_toDigits value.natAbs []
    rw [append_nil] at digits
    rw [toList_toString]
    split
    · rfl
    · exact digits
  have fits : -Int.pow 2 63 ≤ value ∧ value < Int.pow 2 63 := by
    have power : Int.pow 2 63 = 9223372036854775808 := by decide
    rw [power]
    omega
  have found : integerValue? (toString value).toList = some value := by
    rw [integerValue?, sign]
    dsimp only
    rw [if_pos all, ofDigits_toDigits]
    by_cases negative : value < 0
    · have same : -(value.natAbs : Int) = value := by omega
      simp only [if_pos negative, isEmpty_cons, Bool.false_eq_true, ↓reduceIte, same, fits,
        and_self]
    · have same : (value.natAbs : Int) = value := by omega
      simp only [if_neg negative, isEmpty_nil, ↓reduceIte, same, fits, and_self]
  rw [numberValue, found]

end Numbers

section Reader

variable {before text after body trivia : List Char} {found others : List Lexeme}
variable {written : Written}

theorem run_append (reading : Reading) (front back : List Lexeme) :
    reading.run (front ++ back) = (reading.run front).bind (·.run back) := by
  induction front generalizing reading with
  | nil => rfl
  | cons lexeme rest rest_run =>
    rw [cons_append, Reading.run, Reading.run, Option.bind_assoc]
    congr 1
    funext next
    exact rest_run next

structure Reads (text : List Char) (found : List Lexeme) (written : Written) (value : Json) :
    Prop where
  /-- The text is cut into the lexemes, in front of anything that does not continue a number. -/
  lexed : ∀ rest, EndsNumber rest → lexemes (text ++ rest) = (lexemes rest).map (found ++ ·)
  asValue : ∀ stack, (Reading.value stack).run found = Reading.finish written stack
  asItem : ∀ items stack,
    (Reading.item items stack).run found = Reading.finish written (.array items :: stack)
  means : written.value = .ok value

/-- Brackets and what is read between them: the characters and lexemes around the parts, the
readings in front of a part and behind one, and what the parts are written as and mean. -/
structure Enclosure (α β : Type) where
  opening : Char × Lexeme
  closing : Char × Lexeme
  front : List α → List Open → Reading
  behind : List α → List Open → Reading
  whole : List α → Written
  meaning : List α → Except ReadError (List β)
  lexed_opening : ∀ rest, lexemes (opening.1 :: rest) = (lexemes rest).map (opening.2 :: ·) := by
    exact fun _ => lexemes_of_readLexeme (by decide) (by decide) rfl
  lexed_closing : ∀ rest, lexemes (closing.1 :: rest) = (lexemes rest).map (closing.2 :: ·) := by
    exact fun _ => lexemes_of_readLexeme (by decide) (by decide) rfl
  ends : ∀ rest, EndsNumber (closing.1 :: rest) := by exact fun _ => endsNumber_cons _ (by decide)
  starts : ∀ stack, Reading.start opening.2 stack = some (front [] stack) := by intros; rfl
  apart : opening.2 ≠ .closeBracket := by decide
  closes_front : ∀ done stack,
    (front done stack).step closing.2 = Reading.finish (whole done.reverse) stack := by intros; rfl
  closes_behind : ∀ done stack,
    (behind done stack).step closing.2 = Reading.finish (whole done.reverse) stack := by intros; rfl
  goes_on : ∀ done stack, (behind done stack).step .comma = some (front done stack) := by
    intros; rfl
  meaning_nil : meaning [] = .ok [] := by rfl

namespace Enclosure

variable {α β : Type}

structure ReadsPart (enclosure : Enclosure α β) (text : List Char) (found : List Lexeme)
    (written : α) (value : β) : Prop where
  /-- The text is cut into the lexemes, in front of anything that does not continue a number. -/
  lexed : ∀ rest, EndsNumber rest → lexemes (text ++ rest) = (lexemes rest).map (found ++ ·)
  /-- The lexemes are read as one more part. -/
  adds : ∀ done stack, (enclosure.front done stack).run found =
    some (enclosure.behind (written :: done) stack)
  means : ∀ {others values}, enclosure.meaning others = .ok values →
    enclosure.meaning (written :: others) = .ok (value :: values)

/-- Parts and the text between the brackets around them, with their lexemes. -/
structure ReadsParts (enclosure : Enclosure α β) (body : List Char) (found : List Lexeme)
    (written : List α) (values : List β) : Prop where
  lexed : ∀ rest, lexemes (body ++ enclosure.closing.1 :: rest) =
    (lexemes rest).map (found ++ enclosure.closing.2 :: ·)
  closes : ∀ done stack, (enclosure.front done stack).run (found ++ [enclosure.closing.2]) =
    Reading.finish (enclosure.whole (done.reverse ++ written)) stack
  means : enclosure.meaning written = .ok values

end Enclosure

theorem reads_single {lexeme : Lexeme}
    (lexed : ∀ rest, EndsNumber rest → lexemes (text ++ rest) = (lexemes rest).map (lexeme :: ·))
    (starts : ∀ stack, Reading.start lexeme stack = Reading.finish written stack)
    (other : lexeme ≠ .closeBracket) (means : written.value = .ok value) :
    Reads text [lexeme] written value where
  lexed := lexed
  asValue stack := by
    rw [Reading.run, Reading.step, starts]
    cases Reading.finish written stack <;> rfl
  asItem items stack := by
    rw [Reading.run, Reading.step, starts]
    · cases Reading.finish written (.array items :: stack) <;> rfl
    · exact fun same => other same
  means := means

theorem lexemes_string {chars written : List Char} (forms : WrittenChars chars written)
    (rest : List Char) :
    lexemes ('"' :: (written ++ '"' :: rest)) = (lexemes rest).map (.string written :: ·) := by
  refine lexemes_of_readLexeme (by decide) (by decide) ?_
  rw [readLexeme, readString_chars forms, Option.map_some]

namespace Enclosure

variable {α β : Type} {enclosure : Enclosure α β} {part : α} {parts : List α} {value : β}
  {values : List β}

theorem readsParts_nil (skipped : Trivia trivia) : enclosure.ReadsParts trivia [] [] [] where
  lexed rest := by
    rw [lexemes_trivia skipped, enclosure.lexed_closing]
    rfl
  closes done stack := by
    rw [nil_append, Reading.run, enclosure.closes_front, append_nil]
    cases Reading.finish (enclosure.whole done.reverse) stack <;> rfl
  means := enclosure.meaning_nil

theorem ReadsPart.last (front : Trivia before) (reads : enclosure.ReadsPart text found part value)
    (back : Trivia after) :
    enclosure.ReadsParts (before ++ (text ++ after)) found [part] [value] where
  lexed rest := by
    simp only [append_assoc, lexemes_trivia front, lexemes_trivia back,
      reads.lexed _ (endsNumber_trivia back (enclosure.ends rest)), enclosure.lexed_closing,
      Option.map_map, Function.comp_def]
  closes done stack := by
    rw [run_append, reads.adds, Option.bind_some, Reading.run, enclosure.closes_behind,
      reverse_cons]
    cases Reading.finish (enclosure.whole (done.reverse ++ [part])) stack <;> rfl
  means := reads.means enclosure.meaning_nil

theorem ReadsPart.more (front : Trivia before) (reads : enclosure.ReadsPart text found part value)
    (back : Trivia after) (rest : enclosure.ReadsParts body others parts values) :
    enclosure.ReadsParts (before ++ (text ++ (after ++ ',' :: body))) (found ++ .comma :: others)
      (part :: parts) (value :: values) where
  lexed tail := by
    have ends : EndsNumber (after ++ ',' :: (body ++ enclosure.closing.1 :: tail)) :=
      endsNumber_trivia back (endsNumber_cons _ (by decide))
    have comma : lexemes (',' :: (body ++ enclosure.closing.1 :: tail)) =
        (lexemes (body ++ enclosure.closing.1 :: tail)).map (.comma :: ·) :=
      lexemes_of_readLexeme (by decide) (by decide) rfl
    simp only [append_assoc, cons_append, lexemes_trivia front, reads.lexed _ ends,
      lexemes_trivia back, comma, rest.lexed, Option.map_map, Function.comp_def]
  closes done stack := by
    rw [append_assoc, run_append, reads.adds, Option.bind_some, cons_append, Reading.run,
      enclosure.goes_on, Option.bind_some, rest.closes, reverse_cons, append_assoc,
      singleton_append]
  means := reads.means rest.means

theorem ReadsParts.enclosed {outcome : Json} (inside : enclosure.ReadsParts body found parts values)
    (means : (enclosure.whole parts).value = .ok outcome) :
    Reads (enclosure.opening.1 :: (body ++ [enclosure.closing.1]))
      (enclosure.opening.2 :: (found ++ [enclosure.closing.2]))
        (enclosure.whole parts) outcome where
  lexed rest _ := by
    simp only [cons_append, append_assoc, nil_append, enclosure.lexed_opening,
      inside.lexed, Option.map_map, Function.comp_def]
  asValue stack := by
    rw [Reading.run, Reading.step, enclosure.starts]
    exact inside.closes [] stack
  asItem items stack := by
    rw [Reading.run, Reading.step, enclosure.starts]
    · exact inside.closes [] (.array items :: stack)
    · exact fun same => enclosure.apart same
  means := means

end Enclosure

def itemsBetween : Enclosure Written Json where
  opening := ('[', .openBracket)
  closing := (']', .closeBracket)
  front := .item
  behind := .afterItem
  whole := .array
  meaning := Written.values

def membersBetween : Enclosure (List Char × Written) (String × Json) where
  opening := ('\x7b', .openBrace)
  closing := ('\x7d', .closeBrace)
  front := .key
  behind := .afterMember
  whole := .object
  meaning := Written.members

theorem Reads.item {item : Json} (reads : Reads text found written item) :
    itemsBetween.ReadsPart text found written item where
  lexed := reads.lexed
  adds := reads.asItem
  means rest := by
    change Written.values _ = _ at rest ⊢
    rw [Written.values, reads.means, rest]
    rfl

theorem Reads.member {label : List Char}
    (chars : WrittenChars key.toList label) (back : Trivia after) (front : Trivia before)
    (reads : Reads text found written value) :
    membersBetween.ReadsPart ('"' :: (label ++ '"' :: (after ++ ':' :: (before ++ text))))
      (.string label :: .colon :: found) (label, written) (key, value) where
  lexed rest ends := by
    have colon : lexemes (':' :: (before ++ (text ++ rest))) =
        (lexemes (before ++ (text ++ rest))).map (.colon :: ·) :=
      lexemes_of_readLexeme (by decide) (by decide) rfl
    simp only [cons_append, append_assoc, lexemes_string chars, lexemes_trivia back, colon,
      lexemes_trivia front, reads.lexed _ ends, Option.map_map, Function.comp_def]
  adds done stack := by
    change (Reading.key done stack).run _ = _
    rw [Reading.run, Reading.step, Option.bind_some, Reading.run, Reading.step, Option.bind_some,
      reads.asValue, Reading.finish]
    rfl
  means rest := by
    change Written.members _ = _ at rest ⊢
    rw [Written.members, stringValue_written chars, reads.means, rest]
    rfl

theorem reads_array {items : List Json} {parts : List Written}
    (inside : itemsBetween.ReadsParts body found parts items) :
    ∃ found written, Reads ('[' :: (body ++ [']'])) found written (.array items) := by
  have means : Written.values parts = .ok items := inside.means
  refine ⟨_, _, inside.enclosed (show (Written.array parts).value = _ from ?_)⟩
  rw [Written.value, means]
  rfl

theorem reads_object {parts : List (List Char × Written)}
    (inside : membersBetween.ReadsParts body found parts members) :
    ∃ found written, Reads ('\x7b' :: (body ++ ['\x7d'])) found written (ofMembers members) := by
  have means : Written.members parts = .ok members := inside.means
  refine ⟨_, _, inside.enclosed (show (Written.object parts).value = _ from ?_)⟩
  rw [Written.value, means]
  rfl

end Reader

section Objects

abbrev InKeyOrder (members : List (String × Json)) : Prop :=
  members.Pairwise fun first second => first.1 < second.1

theorem insertMember_of_new (value : Json)
    (sorted : InKeyOrder members) (new : ∀ member ∈ members, member.1 ≠ key) :
    InKeyOrder (insertMember key value members) ∧
      (insertMember key value members).Perm ((key, value) :: members) := by
  induction members with
  | nil => exact ⟨by simp [insertMember], .refl _⟩
  | cons first rest rest_inserted =>
    obtain ⟨known, old⟩ := first
    obtain ⟨lower, rest_sorted⟩ := pairwise_cons.mp sorted
    rw [insertMember]
    split
    · rename_i before
      refine ⟨pairwise_cons.mpr ⟨?_, sorted⟩, .refl _⟩
      intro member listed
      rcases mem_cons.mp listed with rfl | later
      · exact before
      · exact String.lt_trans before (lower member later)
    · rename_i notBefore
      have other : key ≠ known := Ne.symm (new (known, old) (.head _))
      rw [if_neg other]
      obtain ⟨inserted_sorted, moved⟩ :=
        rest_inserted rest_sorted fun member later => new member (.tail _ later)
      refine ⟨pairwise_cons.mpr ⟨?_, inserted_sorted⟩, ?_⟩
      · intro member listed
        rcases mem_cons.mp (moved.mem_iff.mp listed) with rfl | later
        · exact String.not_le.mp fun le =>
            other (String.le_antisymm le (String.not_lt.mp notBefore))
        · exact lower member later
      · exact (moved.cons _).trans (.swap _ _ _)

theorem foldl_insertMember {order done : List (String × Json)} (sorted : InKeyOrder done)
    (distinct : ((order ++ done).map (·.1)).Nodup) :
    let members := order.foldl (fun sorted (member : String × Json) =>
      insertMember member.1 member.2 sorted) done
    InKeyOrder members ∧ members.Perm (order ++ done) := by
  induction order generalizing done with
  | nil => exact ⟨sorted, .refl _⟩
  | cons first rest rest_inserted =>
    rw [cons_append, map_cons, nodup_cons] at distinct
    have new : ∀ member ∈ done, member.1 ≠ first.1 := by
      intro member listed same
      exact distinct.1 (mem_map.mpr ⟨member, mem_append_right rest listed, same⟩)
    obtain ⟨first_sorted, moved⟩ := insertMember_of_new first.2 sorted new
    have behind : (rest ++ insertMember first.1 first.2 done).Perm (first :: (rest ++ done)) :=
      (moved.append_left rest).trans perm_middle
    have apart : ((rest ++ insertMember first.1 first.2 done).map (·.1)).Nodup :=
      (behind.map _).nodup_iff.mpr (nodup_cons.mpr distinct)
    obtain ⟨all_sorted, all_moved⟩ := rest_inserted first_sorted apart
    exact ⟨all_sorted, all_moved.trans behind⟩

theorem ofMembers_of_perm {order : List (String × Json)} (sorted : InKeyOrder members)
    (arranged : order.Perm members) : ofMembers order = .object members := by
  have keys : (members.map (·.1)).Nodup := by
    refine pairwise_map.mpr (sorted.imp ?_)
    intro first second before same
    rw [same] at before
    exact String.lt_irrefl _ before
  have distinct : ((order ++ ([] : List (String × Json))).map (·.1)).Nodup := by
    rw [append_nil]
    exact (arranged.map _).nodup_iff.mpr keys
  obtain ⟨again_sorted, moved⟩ := foldl_insertMember List.Pairwise.nil distinct
  rw [append_nil] at moved
  refine congrArg Json.object ((moved.trans arranged).eq_of_pairwise ?_ again_sorted sorted)
  intro first second _ _ before behind
  exact absurd behind (String.lt_asymm before)

end Objects

section Documents

mutual

theorem reads_of_printed : ∀ {value : Json} {text : List Char}, Printed value text →
    ∃ found written, Reads text found written value
  | _, _, .null => by
    refine ⟨[.null], .null, reads_single (fun rest _ => ?_) (fun _ => rfl) (by decide) rfl⟩
    exact lexemes_of_readLexeme (by decide) (by decide) rfl
  | _, _, .yes => by
    refine ⟨[.bool true], .bool true,
      reads_single (fun rest _ => ?_) (fun _ => rfl) (by decide) rfl⟩
    exact lexemes_of_readLexeme (by decide) (by decide) rfl
  | _, _, .no => by
    refine ⟨[.bool false], .bool false,
      reads_single (fun rest _ => ?_) (fun _ => rfl) (by decide) rfl⟩
    exact lexemes_of_readLexeme (by decide) (by decide) rfl
  | _, _, .integer lower upper =>
    ⟨[.number _], .number _, reads_single (fun _ ends => lexemes_integer _ ends) (fun _ => rfl)
      Lexeme.noConfusion (numberValue_toString lower upper)⟩
  | _, _, @Printed.string _ written chars => by
    refine ⟨[.string written], .string written, reads_single (fun rest _ => ?_) (fun _ => rfl)
      Lexeme.noConfusion ?_⟩
    · rw [cons_append, append_assoc, singleton_append]
      exact lexemes_string chars rest
    · rw [Written.value, stringValue_written chars]
      rfl
  | _, _, .emptyArray skipped => reads_array (Enclosure.readsParts_nil skipped)
  | _, _, .array inside => by
    obtain ⟨found, written, reads⟩ := readsItems_of_printed inside
    exact reads_array reads
  | _, _, .emptyObject skipped => reads_object (Enclosure.readsParts_nil skipped)
  | _, _, .object sorted arranged inside => by
    obtain ⟨found, written, reads⟩ := readsMembers_of_printed inside
    exact ofMembers_of_perm sorted arranged ▸ reads_object reads

theorem readsItems_of_printed : ∀ {items : List Json} {body : List Char},
    PrintedItems items body → ∃ found written, itemsBetween.ReadsParts body found written items
  | _, _, .last front printed back => by
    obtain ⟨found, written, reads⟩ := reads_of_printed printed
    exact ⟨_, _, reads.item.last front back⟩
  | _, _, .trailing front printed back behind => by
    obtain ⟨found, written, reads⟩ := reads_of_printed printed
    exact ⟨_, _, reads.item.more front back (Enclosure.readsParts_nil behind)⟩
  | _, _, .more front printed back others => by
    obtain ⟨found, written, reads⟩ := reads_of_printed printed
    obtain ⟨_, _, rest⟩ := readsItems_of_printed others
    exact ⟨_, _, reads.item.more front back rest⟩

theorem readsMember_of_printed : ∀ {member : String × Json} {text : List Char},
    PrintedMember member text → ∃ found written, membersBetween.ReadsPart text found written member
  | _, _, .pair label back front printed => by
    obtain ⟨found, written, reads⟩ := reads_of_printed printed
    exact ⟨_, _, reads.member label back front⟩

theorem readsMembers_of_printed : ∀ {members : List (String × Json)} {body : List Char},
    PrintedMembers members body →
      ∃ found written, membersBetween.ReadsParts body found written members
  | _, _, .last front printed back => by
    obtain ⟨found, written, reads⟩ := readsMember_of_printed printed
    exact ⟨_, _, reads.last front back⟩
  | _, _, .trailing front printed back behind => by
    obtain ⟨found, written, reads⟩ := readsMember_of_printed printed
    exact ⟨_, _, reads.more front back (Enclosure.readsParts_nil behind)⟩
  | _, _, .more front printed back others => by
    obtain ⟨found, written, reads⟩ := readsMember_of_printed printed
    obtain ⟨_, _, rest⟩ := readsMembers_of_printed others
    exact ⟨_, _, reads.more front back rest⟩

end

/-- Reading undoes printing: a text that prints a value is read as that value, whatever blanks
and comments stand around its lexemes, whatever escapes its strings are written with, whatever
order its members have, and with or without commas behind last items and members. -/
theorem read_printing {value : Json} {text : List Char} (printed : PrintedDocument value text) :
    read (String.ofList text) = .ok value := by
  cases printed with
  | @whole before text after front printed back =>
    obtain ⟨found, written, reads⟩ := reads_of_printed printed
    have cut : lexemes (before ++ (text ++ after)) = some found := by
      rw [lexemes_trivia front, reads.lexed _ (endsNumber_closing back), lexemes_closing back,
        Option.map_some, append_nil]
    have document : Written.read? (String.ofList (before ++ (text ++ after))) = some written := by
      rw [Written.read?, String.toList_ofList, cut, Option.bind_some, reads.asValue]
      rfl
    rw [read, document]
    exact reads.means

namespace Sample

def marked : Json := .array [.object [("a", .integer (-1)), ("b", .null)], .string "😀//"]

/-- A printing of it: members against their order, two trailing commas, an escaped surrogate
pair with digits of either case, and a comment that only the end of the text ends. -/
def markedText : List Char :=
  "/**/[ \x7b\"b\":null,// b\n\"\\u0061\" : -1,\x7d,\"\\ud83d\\uDE00//\",]//".toList

end Sample

/-- The printing is read as the value. -/
theorem marked_is_read :
    PrintedDocument Sample.marked Sample.markedText ∧
      read (String.ofList Sample.markedText) = .ok Sample.marked := by
  have blank : Trivia [' '] := .blank (by decide) .none
  have comment : Trivia ['/', '*', '*', '/'] := @Trivia.block [] [] (by decide) .none
  have line : Trivia "// b\n".toList :=
    @Trivia.line [' ', 'b'] [] '\n' (by simp [lineBreaks]) (by decide) .none
  have keyA : WrittenChars "a".toList "\\u0061".toList :=
    .cons (.unit (by decide) (.digits (by decide) (by decide) (by decide) (by decide))) .nil
  have keyB : WrittenChars "b".toList ['b'] :=
    .cons (.plain (by decide) (by decide) (by decide)) .nil
  have members : PrintedMembers [("b", .null), ("a", .integer (-1))]
      "\"b\":null,// b\n\"\\u0061\" : -1,".toList :=
    .more .none (.pair keyB .none .none .null) .none
      (.trailing line (.pair keyA blank blank (.integer (by decide) (by decide))) .none .none)
  have face : WrittenChars "😀//".toList "\\ud83d\\uDE00//".toList :=
    .cons (.pair (by decide) (.digits (by decide) (by decide) (by decide) (by decide))
      (.digits (by decide) (by decide) (by decide) (by decide)))
      (.cons (.plain (by decide) (by decide) (by decide))
        (.cons (.plain (by decide) (by decide) (by decide)) .nil))
  have object : Printed (.object [("a", .integer (-1)), ("b", .null)]) _ :=
    .object (pairwise_pair.mpr (by decide)) (.swap _ _ _) members
  have items : PrintedItems [.object [("a", .integer (-1)), ("b", .null)], .string "😀//"] _ :=
    .more blank object .none (.trailing .none (.string face) .none .none)
  have printed : PrintedDocument Sample.marked Sample.markedText :=
    .whole comment (.array items) (.line .none (by simp))
  exact ⟨printed, read_printing printed⟩

end Documents

end Haxify.Json
