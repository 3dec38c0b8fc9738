import Haxify.Proofs.Digits
import Haxify.Proofs.Unions
import Mathlib.Algebra.Order.Ring.Int

/-!
# Enumerations of numbers

A member of an enumeration has the value of its initializer, or one more than the member before
it. The values are doubles, and whole numbers of less than sixteen digits are exact. Main
statement: such an enumeration has a Haxe form, with each value in decimal notation.
-/

namespace Haxify.Number

open Binary64

theorem divideToEven_mul {denominator : Nat} (positive : 0 < denominator) (quotient : Nat) :
    divideToEven (quotient * denominator) denominator = quotient := by
  simp [divideToEven, Nat.mul_div_cancel _ positive, positive.ne]

theorem scaleDown_neg (numerator denominator shift : Nat) :
    scaleDown numerator denominator (-(shift : Int)) = (numerator * 2 ^ shift, denominator) := by
  cases shift with
  | zero => simp [scaleDown]
  | succ less =>
    rw [scaleDown, if_neg (by omega), Int.neg_neg, Int.toNat_natCast]
    rfl

theorem toInt?_finite (negative : Bool) (value shift : Nat) :
    (Binary64.finite negative (value * 2 ^ shift) (-(shift : Int))).toInt? =
      some (signed negative value) := by
  cases shift with
  | zero => simp [toInt?]
  | succ less =>
    rw [toInt?, if_neg (by omega), Int.neg_neg, Int.toNat_natCast]
    simp

theorem toInt?_zero (negative : Bool) : (zero negative).toInt? = some 0 := by
  have least (shift : Nat) := toInt?_finite negative 0 shift
  simp only [Nat.zero_mul, signed, Int.ofNat_zero, Int.neg_zero, ite_self] at least
  exact least 1074

section Exact

variable {value : Nat} (some : value ≠ 0)
include some

theorem log2_mul_pow (shift : Nat) : (value * 2 ^ shift).log2 = value.log2 + shift := by
  obtain ⟨low, high⟩ := (Nat.log2_eq_iff some).mp rfl
  have positive : 0 < 2 ^ shift := Nat.two_pow_pos shift
  rw [Nat.log2_eq_iff (Nat.mul_ne_zero some positive.ne'), Nat.add_right_comm, pow_add, pow_add]
  exact ⟨Nat.mul_le_mul_right _ low, Nat.mul_lt_mul_of_pos_right high positive⟩

theorem exponentFor_mul_pow (shift : Nat) :
    exponentFor (value * 2 ^ shift) (2 ^ shift) = value.log2 - 52 := by
  have low : 2 ^ shift * 2 ^ value.log2 ≤ value * 2 ^ shift := by
    rw [Nat.mul_comm]
    exact Nat.mul_le_mul_right _ (Nat.log2_self_le some)
  have guess : ((value.log2 + shift : Nat) : Int) - shift = value.log2 := by omega
  simp only [exponentFor, log2_mul_pow some, Nat.log2_two_pow, guess, scaleDown,
    if_pos (Int.natCast_nonneg _), Int.toNat_natCast]
  rw [if_pos (by exact low), leastExponent]
  omega

end Exact

/-- A whole number of 53 bits is a double, however the ratio is written. -/
theorem toInt?_ofRatio (negative : Bool) {value : Nat} (small : value < 2 ^ 53) (shift : Nat) :
    (ofRatio negative (value * 2 ^ shift) (2 ^ shift)).toInt? = some (signed negative value) := by
  by_cases isZero : value = 0
  · rw [isZero, Nat.zero_mul, ofRatio, if_pos rfl, toInt?_zero]
    cases negative <;> rfl
  have bits : value.log2 ≤ 52 := Nat.lt_succ_iff.mp ((Nat.log2_lt isZero).mpr small)
  have exponent :
      exponentFor (value * 2 ^ shift) (2 ^ shift) = -((52 - value.log2 : Nat) : Int) := by
    rw [exponentFor_mul_pow isZero]
    omega
  have fits : value * 2 ^ (52 - value.log2) < 2 ^ 53 := by
    obtain ⟨_, high⟩ := (Nat.log2_eq_iff isZero).mp rfl
    calc value * 2 ^ (52 - value.log2) < 2 ^ (value.log2 + 1) * 2 ^ (52 - value.log2) :=
          Nat.mul_lt_mul_of_pos_right high (Nat.two_pow_pos _)
      _ = 2 ^ 53 := by
        rw [← pow_add]
        congr 1
        omega
  rw [ofRatio, if_neg (Nat.mul_ne_zero isZero (Nat.two_pow_pos shift).ne'), exponent]
  simp only [scaleDown_neg]
  rw [Nat.mul_right_comm, divideToEven_mul (Nat.two_pow_pos shift), settle,
    (beq_eq_false_iff_ne.mpr fits.ne : (_ == Nat.pow 2 53) = false)]
  simp only [Bool.false_eq_true, if_false]
  rw [if_neg (by rw [greatestExponent]; omega)]
  exact toInt?_finite negative value _

theorem signed_natAbs (value : Int) : signed (value < 0) value.natAbs = value := by
  simp only [signed, decide_eq_true_eq]
  split <;> omega

theorem toInt?_ofInt {value : Int} (small : value.natAbs < 2 ^ 53) :
    (ofInt value).toInt? = some value := by
  simpa [ofInt, signed_natAbs] using toInt?_ofRatio (value < 0) small 0

variable {number : Binary64} {value : Int} (read : number.toInt? = some value)
include read

theorem exists_of_toInt? :
    ∃ negative, (∃ mantissa shift : Nat, number = .finite negative mantissa shift ∧
        value = signed negative (mantissa * 2 ^ shift)) ∨
      ∃ whole less : Nat, number = .finite negative (whole * 2 ^ (less + 1)) (-(less + 1 : Nat)) ∧
        value = signed negative whole := by
  cases number with
  | infinite negative => cases read
  | finite negative mantissa exponent =>
    refine ⟨negative, ?_⟩
    rw [toInt?] at read
    split at read
    · obtain ⟨shift, rfl⟩ := Int.eq_ofNat_of_zero_le ‹exponent ≥ 0›
      exact .inl ⟨mantissa, shift, rfl, (Option.some.inj read).symm⟩
    · obtain ⟨less, rfl⟩ : ∃ less : Nat, exponent = -(less + 1 : Nat) :=
        ⟨(-exponent).toNat - 1, by omega⟩
      rw [Int.neg_neg, Int.toNat_natCast] at read
      dsimp only at read
      split at read
      · rename_i whole
        refine .inr ⟨_, less, congrArg (Binary64.finite negative · _) ?_,
          (Option.some.inj read).symm⟩
        exact (Nat.div_mul_cancel (Nat.dvd_of_mod_eq_zero whole)).symm
      · cases read

theorem toInt?_negate : number.negate.toInt? = some (-value) := by
  have turned (negative : Bool) (value : Nat) :
      signed (!negative) value = -signed negative value := by
    cases negative <;> simp [signed]
  obtain ⟨negative, ⟨mantissa, shift, rfl, rfl⟩ | ⟨whole, less, rfl, rfl⟩⟩ := exists_of_toInt? read
  · simp [negate, toInt?, turned]
  · rw [negate, toInt?_finite, turned]

theorem toInt?_succ (small : (value + 1).natAbs < 2 ^ 53) :
    number.succ.toInt? = some (value + 1) := by
  obtain ⟨negative, ⟨mantissa, shift, rfl, rfl⟩ | ⟨unsigned, less, rfl, rfl⟩⟩ :=
    exists_of_toInt? read
  · simpa [succ] using toInt?_ofInt small
  · have sum (unit : Nat) : signed negative (unsigned * unit) + unit =
        (signed negative unsigned + 1) * unit := by
      cases negative <;> simp [signed, add_mul]
    have below : ((signed negative unsigned + 1) * (2 ^ (less + 1) : Nat) < 0) =
        (signed negative unsigned + 1 < 0) := propext (by
      simpa using Int.mul_lt_mul_right (c := 0) (Int.natCast_pos.mpr (Nat.two_pow_pos (less + 1))))
    rw [succ, if_neg (by omega), Int.neg_neg, Int.toNat_natCast]
    change (ofRatio (signed negative (unsigned * 2 ^ (less + 1)) + (2 ^ (less + 1) : Nat) < 0)
      (signed negative (unsigned * 2 ^ (less + 1)) + (2 ^ (less + 1) : Nat)).natAbs _).toInt? = _
    simp only [sum, below, Int.natAbs_mul, Int.natAbs_natCast]
    have whole := toInt?_ofRatio (signed negative unsigned + 1 < 0) small (less + 1)
    rwa [signed_natAbs] at whole

end Haxify.Number

namespace Haxify.Numeral

open List
open Number (Binary64 Decimal)

variable {chars : List Char} {literal : String} {value radix : Nat}

/-- A whole number as it is written without separators. -/
inductive Integer : List Char → Nat → Prop where
  | inRadix {mark : Char} {radix : Nat} {chars : List Char}
      (listed : (mark, radix) ∈ radixMarks) (digits : Digits radix chars) :
      Integer ('0' :: mark :: chars) (numberOf radix chars)
  | decimal {chars : List Char} (digits : Digits 10 chars)
      (unpadded : chars.head? = some '0' → chars = ['0']) : Integer chars (numberOf 10 chars)

theorem read?_of_digits (digits : Digits 10 literal.toList) :
    Decimal.read? literal = some ⟨false, numberOf 10 literal.toList, 0⟩ := by
  have each : decimalDigits.all fun char =>
      char.isDigit ∧ char ≠ '-' ∧ digitValue char = char.toNat - '0'.toNat := by decide
  have digit {char : Char} (member : char ∈ literal.toList) :=
    of_decide_eq_true (all_eq_true.mp each char (digits.decimal char member))
  have front : literal.toList.takeWhile Char.isDigit = literal.toList :=
    takeWhile_eq_self_iff.mpr fun char member => (digit member).1
  have back : literal.toList.dropWhile Char.isDigit = [] :=
    dropWhile_eq_nil_iff.mpr fun char member => (digit member).1
  have same : Number.ofDigits literal.toList = numberOf 10 literal.toList :=
    foldl_ext _ _ _ fun total char member => by rw [(digit member).2.2, Nat.mul_comm]
  rw [Decimal.read?]
  split
  · rename_i begins
    exact absurd rfl (digit (begins ▸ mem_cons_self)).2.1
  · simp [Number.readUnsignedDecimal?, front, back, same, digits.1]

theorem toInt?_toBinary64 (small : value < 10 ^ 15) :
    (Decimal.toBinary64 ⟨false, value, 0⟩).toInt? = some (value : Int) := by
  have bits : value < 2 ^ 53 := small.trans (by decide)
  have count : Number.digitCount value ≤ 15 :=
    (Nat.length_toDigits_le_iff (by decide) (by decide)).mpr small
  have whole : (Binary64.ofRatio false value 1).toInt? = some (value : Int) := by
    simpa [Binary64.signed] using Number.toInt?_ofRatio false bits 0
  rw [Decimal.toBinary64]
  split
  · rename_i isZero
    subst isZero
    exact whole
  · dsimp only
    rw [if_neg (by omega), if_neg (by omega), if_pos (Int.le_refl 0)]
    simpa using whole

theorem toInt?_numberValue? (integer : Integer (Text.without '_' literal).toList value)
    (small : value < 10 ^ 15) :
    ∃ number, Lower.numberValue? literal = some number ∧ number.toInt? = some (value : Int) := by
  have bits : value < 2 ^ 53 := small.trans (by decide)
  generalize plain : (Text.without '_' literal).toList = raw at integer
  cases integer with
  | @inRadix mark radix chars listed digits =>
    refine ⟨.ofInt (numberOf radix chars), ?_, Number.toInt?_ofInt (by simpa using bits)⟩
    have read (isRadix : radix ∈ [2, 8, 16]) :
        Lower.radixValue? radix chars = some (.ofInt (numberOf radix chars)) := by
      have fits : numberOf radix chars < Nat.pow 2 63 := bits.trans (by decide)
      rw [Lower.radixValue?, if_neg (by simpa using digits.1), digitsUpTo?_eq isRadix digits.2,
        Option.filter_some_pos (by simpa [numberOf] using fits)]
      rfl
    simp only [radixMarks, mem_cons, not_mem_nil, or_false, Prod.mk.injEq] at listed
    rcases listed with ⟨rfl, rfl⟩ | ⟨rfl, rfl⟩ | ⟨rfl, rfl⟩ | ⟨rfl, rfl⟩ | ⟨rfl, rfl⟩ | ⟨rfl, rfl⟩
    all_goals
      simpa [Lower.numberValue?, beginsWith_eq plain, plain, List.isPrefixOf] using read (by decide)
  | decimal digits =>
    have marks : ∀ char ∈ raw, char ∈ '.' :: powerChars := fun char member =>
      .tail _ (mem_append_right _ (digits.decimal char member))
    obtain ⟨_, begins⟩ := marks_of_decimal marks
    rw [← plain] at digits
    refine ⟨_, ?_, toInt?_toBinary64 small⟩
    simp [Lower.numberValue?, beginsWith_eq plain, begins, read?_of_digits digits, plain]

end Haxify.Numeral

namespace Haxify.Lower

open List
open TypeScript (decodeLiteral Node)
open Haxe (sanitize Code)
open Number (Binary64)
open TypeScript.Tree (unparenthesized_eq)

variable {number : Binary64} {name : String}

section Members

variable {node : Part} {value : Int}

/-- An initializer that is a whole number. -/
inductive Initializes : Part → Int → Prop where
  | literal {node : Part} {value : Nat} (isNumber : node.kind = "number")
      (integer : Numeral.Integer (Text.without '_' node.text).toList value) : Initializes node value
  | negative {node operator argument : Part} {value : Nat}
      (isUnary : node.kind = "unary_expression") (signed : node.field? "operator" = some operator)
      (minus : operator.text = "-")
      (found : node.field? "argument" = some argument) (isNumber : argument.kind = "number")
      (integer : Numeral.Integer (Text.without '_' argument.text).toList value) :
      Initializes node (-value)
  | parenthesized {node inner : Part} {value : Int}
      (isParenthesized : node.kind = "parenthesized_expression") (found : node.first? = some inner)
      (initializes : Initializes inner value) : Initializes node value

/-- The name of a member. -/
inductive MemberNamed : Part → String → Prop where
  | word {node : Part} (isWord : node.kind = "property_identifier") : MemberNamed node node.text
  | quoted {node : Part} (isString : node.kind = "string") :
      MemberNamed node (decodeLiteral node.text)

/-- Members with their values, where the next one without an initializer has a value. -/
inductive Counts : Int → List Part → List (String × Int) → Prop where
  | nil (next : Int) : Counts next [] []
  | counted {next : Int} {member : Part} {name : String} {rest : List Part}
      {values : List (String × Int)} (named : MemberNamed member name)
      (behind : Counts (next + 1) rest values) :
      Counts next (member :: rest) ((name, next) :: values)
  | given {next value : Int} {member word initializer : Part} {name : String} {rest : List Part}
      {values : List (String × Int)} (isAssignment : member.kind = "enum_assignment")
      (found : member.field? "name" = some word) (named : MemberNamed word name)
      (initialized : member.field? "value" = some initializer)
      (initializes : Initializes initializer value) (behind : Counts (value + 1) rest values) :
      Counts next (member :: rest) ((name, value) :: values)

theorem toInt?_initializerValue? (initializes : Initializes node value)
    (small : value.natAbs < 10 ^ 15) :
    ∃ number, initializerValue? node = some number ∧ number.toInt? = some value := by
  induction initializes with
  | literal isNumber integer =>
    obtain ⟨number, given, read⟩ := Numeral.toInt?_numberValue? integer (by simpa using small)
    exact ⟨number, by simp [initializerValue?, unparenthesized_eq, isNumber, given], read⟩
  | negative isUnary signed minus found isNumber integer =>
    obtain ⟨number, given, read⟩ := Numeral.toInt?_numberValue? integer (by simpa using small)
    refine ⟨number.negate, ?_, Number.toInt?_negate read⟩
    simp [initializerValue?, unparenthesized_eq, isUnary, signed, minus, found, isNumber, given,
      Option.filter]
  | parenthesized isParenthesized found _ inner =>
    obtain ⟨number, given, read⟩ := inner small
    refine ⟨number, ?_, read⟩
    simpa [initializerValue?, unparenthesized_eq, isParenthesized, found] using given

theorem valueText_eq (read : number.toInt? = some value)
    (small : value.natAbs < 10 ^ 15) : valueText number = toString value := by
  rw [valueText, read]
  exact if_pos small

theorem enumMemberName_eq (named : MemberNamed node name) :
    enumMemberName node = .ok (sanitize name) := by
  cases named with
  | word isWord => simp [enumMemberName, isWord]
  | quoted isString => simp [enumMemberName, isString]

theorem enumMember_counted (named : MemberNamed node name) :
    enumMember node = .ok ⟨node, sanitize name, none⟩ := by
  have plain : node.kind ≠ "enum_assignment" := by
    cases named with
    | word isWord => simp [isWord]
    | quoted isString => simp [isString]
  simp [enumMember, plain, enumMemberName_eq named]

theorem enumMember_given {word : Part}
    (isAssignment : node.kind = "enum_assignment")
    (found : node.field? "name" = some word) (named : MemberNamed word name) :
    enumMember node = .ok ⟨node, sanitize name, node.field? "value"⟩ := by
  simp [enumMember, isAssignment, found, enumMemberName_eq named]

theorem kind_of_initializes (initializes : Initializes node value) : node.kind ≠ "string" := by
  cases initializes <;> simp [*]

/-- Members that count are read, none of them has a string for a value, and they are numbered as
they count. -/
theorem numberMembers_of_counts {next : Int} {nodes : List Part} {values : List (String × Int)}
    (counts : Counts next nodes values) (small : ∀ entry ∈ values, entry.2.natAbs < 10 ^ 15)
    (read : number.toInt? = some next) :
    ∃ members, nodes.mapM enumMember = .ok members ∧
      members.any (fun member => member.value?.any (·.kind == "string")) = false ∧
      numberMembers number members =
        .ok (values.map fun entry => (sanitize entry.1, toString entry.2)) := by
  induction counts generalizing number with
  | nil next => exact ⟨[], rfl, rfl, rfl⟩
  | @counted next member name rest values named _ rest_numbered =>
    rw [forall_mem_cons] at small
    obtain ⟨members, behind, plain, numbered⟩ :=
      rest_numbered small.2 (Number.toInt?_succ read (by omega))
    refine ⟨⟨member, sanitize name, none⟩ :: members, ?_, by simpa using plain, ?_⟩
    · rw [mapM_cons, enumMember_counted named, behind]
      rfl
    · simp [numberMembers, numbered, valueText_eq read small.1]
  | @given next value member word initializer name rest values isAssignment found named initialized
      initializes _ rest_numbered =>
    rw [forall_mem_cons] at small
    obtain ⟨number, valued, read⟩ := toInt?_initializerValue? initializes small.1
    obtain ⟨members, behind, plain, numbered⟩ :=
      rest_numbered small.2 (Number.toInt?_succ read (by omega))
    refine ⟨⟨member, sanitize name, some initializer⟩ :: members, ?_, ?_, ?_⟩
    · rw [mapM_cons, enumMember_given isAssignment found named, initialized, behind]
      rfl
    · simpa [kind_of_initializes initializes] using plain
    · simp [numberMembers, valued, numbered, valueText_eq read small.1]

/-- An enumeration of whole numbers of less than sixteen digits has a Haxe form, and each member
has the value that it counts to, in decimal notation. -/
theorem numeric_members_keep_values {name body : Part} {values : List (String × Int)}
    (foundName : node.field? "name" = some name) (foundBody : node.field? "body" = some body)
    (counts : Counts 0 body.named values) (small : ∀ entry ∈ values, entry.2.natAbs < 10 ^ 15)
    (isPublic : Bool) (context : Context) (state : State) :
    (enumDeclaration node isPublic).evaluate context state =
      (.ok (Code.render context.indent (Code.block
        (visibility isPublic ++ "enum abstract " ++ name.text ++ "(Float) from Float to Float")
        (values.map fun entry =>
          .line ("var " ++ sanitize entry.1 ++ " = " ++ toString entry.2 ++ ";")))),
        state) := by
  obtain ⟨members, read, plain, numbered⟩ :=
    numberMembers_of_counts counts small (Number.toInt?_zero false)
  have given : enumeration name.text body.named = .ok ⟨name.text, "Float",
      values.map fun entry => (sanitize entry.1, toString entry.2)⟩ := by
    rw [enumeration, read]
    change (if _ then _ else _) = _
    rw [plain, if_neg Bool.false_ne_true, numbered]
    rfl
  simp only [enumDeclaration, foundName, foundBody, given, evaluate_enumAbstract, map_map]
  rfl

end Members

namespace Sample

def top : Node := node "enum_assignment" "" "" [
  node "property_identifier" "name" "Top" [], node "number" "value" "0XF_f" []]

def above : Node := node "string" "" "'above'" []

def down : Node := node "enum_assignment" "" "" [
  node "property_identifier" "name" "Down" [],
  node "parenthesized_expression" "value" "(-1)" [node "unary_expression" "" "-1" [
    node "-" "operator" "-" [], node "number" "argument" "1" []]]]

def still : Node := node "property_identifier" "" "Still" []

def steps : Node := node "enum_body" "body" "" [top, above, down, still]

def levels : Node := node "enum_declaration" "" "" [
  identifier "name" "Level", steps]

def levelValues : List (String × Int) := [("Top", 255), ("above", 256), ("Down", -1), ("Still", 0)]

end Sample

open Sample

theorem levels_keep_values :
    (enumDeclaration (rendered levels) true).evaluate (around levels)
      .initial =
      (.ok (Code.render "  " (Code.block "enum abstract Level(Float) from Float to Float"
        (levelValues.map fun entry =>
          .line ("var " ++ sanitize entry.1 ++ " = " ++ toString entry.2 ++ ";")))),
        .initial) := by
  have above : MemberNamed (rendered above) "above" :=
    (by decide +kernel : decodeLiteral "'above'" = "above") ▸ .quoted rfl
  have hex : Numeral.Integer (Text.without '_' "0XF_f").toList 255 :=
    (by decide +kernel : (Text.without '_' "0XF_f").toList = ['0', 'X', 'F', 'f']) ▸
      @Numeral.Integer.inRadix 'X' 16 ['F', 'f'] (by decide)
        (Numeral.digits_of_all (by decide) (by decide))
  have one : Numeral.Integer (Text.without '_' "1").toList 1 :=
    (by decide +kernel : (Text.without '_' "1").toList = ['1']) ▸
      @Numeral.Integer.decimal ['1'] (Numeral.digits_of_all (by decide) (by decide)) (by decide)
  have still : Counts 0 [rendered still] [("Still", 0)] := .counted (.word rfl) (.nil 1)
  have down : Counts 257 [rendered Sample.down, rendered Sample.still]
      [("Down", -1), ("Still", 0)] :=
    .given rfl rfl (.word rfl) rfl
      (.parenthesized rfl rfl (.negative rfl rfl rfl rfl rfl one)) still
  have members : (rendered Sample.steps).named = [rendered Sample.top, rendered Sample.above,
      rendered Sample.down, rendered Sample.still] := rfl
  have counts : Counts 0 (rendered steps).named levelValues := by
    rw [members]
    exact .given rfl rfl (.word rfl) rfl (.literal rfl hex) (.counted above down)
  have named : (rendered levels).field? "name" = some (rendered (identifier "name" "Level")) := rfl
  have body : (rendered levels).field? "body" = some (rendered steps) := rfl
  exact numeric_members_keep_values named body counts (by decide) true _ .initial

end Haxify.Lower
