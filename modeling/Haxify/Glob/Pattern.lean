import Haxify.Text.Pieces

/-!
# Glob patterns

A pattern is literal characters, wildcards, character classes and groups of
alternatives. Two stars are special only as a whole path component: at the start
they stand for any number of directories, at the end for everything below, and in
the middle for zero or more directories. Matching is by bytes, so a class or a
question mark stands for one byte.
-/

namespace Haxify.Glob

/-- Why a text is no pattern. -/
inductive PatternError where
  | unclosedClass
  /-- A range whose ends are in the wrong order. -/
  | invalidRange (low high : Char)
  | unopenedGroup
  /-- A group without its closing brace. -/
  | unclosedGroup
  /-- A backslash at the end. -/
  | danglingEscape
deriving DecidableEq, Repr

def PatternError.message : PatternError → String
  | .unclosedClass => "unclosed character class; missing ']'"
  | .invalidRange low high =>
    "invalid range; '" ++ String.singleton low ++ "' > '" ++ String.singleton high ++ "'"
  | .unopenedGroup =>
    "unopened alternate group; missing '\x7b' (maybe escape '\x7d' with '[\x7d]'?)"
  | .unclosedGroup =>
    "unclosed alternate group; missing '\x7d' (maybe escape '\x7b' with '[\x7b]'?)"
  | .danglingEscape => "dangling '\\'"

/-- What one step of matching accepts. -/
inductive Atom where
  | byte (value : UInt8)
  | any
  /-- Any bytes but slashes. -/
  | star
  /-- Nothing, or anything that ends in a slash. -/
  | directories
  | below
  | between
  /-- A byte but a slash that is in one of some ranges, or in none of them. -/
  | oneOf (negated : Bool) (ranges : List (UInt8 × UInt8))
deriving DecidableEq, Repr

inductive Part where
  /-- A character that stands for itself. -/
  | literal (char : Char)
  /-- A wildcard or class. -/
  | atom (atom : Atom)
  /-- A group: one of some sequences. -/
  | group (choices : List (List Atom))
deriving DecidableEq, Repr

def bytesOf (char : Char) : List UInt8 := (String.singleton char).toUTF8.toList

/-- All sequences that parts in order stand for. -/
def choicesOf : List Part → List (List Atom)
  | [] => [[]]
  | .literal char :: rest => (choicesOf rest).map ((bytesOf char).map Atom.byte ++ ·)
  | .atom atom :: rest => (choicesOf rest).map (atom :: ·)
  | .group [] :: rest => choicesOf rest
  | .group choices :: rest =>
    choices.flatMap fun choice => (choicesOf rest).map (choice ++ ·)

/-- The sequences of a group; a branch without any parts counts for nothing. -/
def groupChoices (branches : List (List Part)) : List (List Atom) :=
  branches.flatMap fun branch =>
    let choices := choicesOf branch
    if choices == [[]] then [] else choices

structure OpenGroup where
  branches : List (List Part)
  /-- What stands before it, last first. -/
  outer : List Part

/-- A pattern that has been read in part. -/
structure Parsing where
  groups : List OpenGroup
  current : List Part
  /-- The last character read. -/
  previous : Option Char

namespace Parsing

/-- With one more part, read up to a character. -/
def push (parsing : Parsing) (part : Part) (last : Char) : Parsing :=
  { parsing with current := part :: parsing.current, previous := some last }

/-- With two stars that have no special meaning. -/
def pushStars (parsing : Parsing) : Parsing :=
  (parsing.push (.atom .star) '*').push (.atom .star) '*'

/-- With the last part replaced by two special stars, which swallow special stars before them. -/
def replaceLast (parsing : Parsing) (atom : Atom) (last : Char) : Parsing :=
  match parsing.current with
  | .atom .directories :: _ => { parsing with previous := some last }
  | .atom .below :: _ => { parsing with previous := some last }
  | _ :: before => { parsing with current := .atom atom :: before, previous := some last }
  | [] => { parsing with current := [.atom atom], previous := some last }

/-- After two stars: what they mean depends on what stands before and behind them. -/
def stars (parsing : Parsing) (rest : List Char) : Parsing × List Char :=
  if parsing.current.isEmpty then
    match rest with
    | [] => (parsing.push (.atom .directories) '*', [])
    | '/' :: after => (parsing.push (.atom .directories) '/', after)
    | _ => (parsing.pushStars, rest)
  else if parsing.previous != some '/' then (parsing.pushStars, rest)
  else
    match rest with
    | [] => (parsing.replaceLast .below '*', [])
    | '/' :: after => (parsing.replaceLast .between '/', after)
    | next :: _ =>
      if !parsing.groups.isEmpty && (next == ',' || next == '\x7d') then
        (parsing.replaceLast .below '*', rest)
      else (parsing.pushStars, rest)

def openGroup (parsing : Parsing) : Parsing :=
  { groups := ⟨[], parsing.current⟩ :: parsing.groups, current := [], previous := some '\x7b' }

/-- At a comma, which divides branches inside a group only. -/
def comma (parsing : Parsing) : Parsing :=
  match parsing.groups with
  | [] => parsing.push (.literal ',') ','
  | group :: outer =>
    { groups := { group with branches := group.branches ++ [parsing.current.reverse] } :: outer
      current := []
      previous := some ',' }

def closeGroup (parsing : Parsing) : Except PatternError Parsing :=
  match parsing.groups with
  | [] => .error .unopenedGroup
  | group :: outer =>
    .ok { groups := outer
          current :=
            .group (groupChoices (group.branches ++ [parsing.current.reverse])) :: group.outer
          previous := some '\x7d' }

end Parsing

/-- The bytes that a range of characters puts in a class. -/
def byteRanges (range : Char × Char) : List (UInt8 × UInt8) :=
  let single (byte : UInt8) := (byte, byte)
  if range.1 = range.2 then (bytesOf range.1).map single
  else
    let low := bytesOf range.1
    let high := bytesOf range.2
    low.dropLast.map single
      ++ [(low.getLastD 0, high.headD 0)]
      ++ (high.drop 1).map single

/-- The ranges of a class up to its closing bracket, last first, and what follows. A
bracket or dash at the start, and a dash at the end, stand for themselves. -/
def readClass (atStart inRange : Bool) (ranges : List (Char × Char)) :
    List Char → Except PatternError (List (Char × Char) × List Char)
  | [] => .error .unclosedClass
  | char :: rest =>
    if char = ']' ∧ ¬ atStart then
      .ok (if inRange then ('-', '-') :: ranges else ranges, rest)
    else if char = '-' ∧ ¬ atStart ∧ ¬ inRange then readClass false true ranges rest
    else if inRange then
      match ranges with
      | (low, _) :: others =>
        if char < low then .error (.invalidRange low char)
        else readClass false false ((low, char) :: others) rest
      | [] => readClass false false [(char, char)] rest
    else readClass false false ((char, char) :: ranges) rest

theorem readClass_length {atStart inRange : Bool} {ranges found : List (Char × Char)}
    {chars rest : List Char}
    (read : readClass atStart inRange ranges chars = .ok (found, rest)) :
    rest.length < chars.length := by
  fun_induction readClass atStart inRange ranges chars
  case case2 =>
    cases read
    exact Nat.lt_succ_self _
  all_goals first
    | contradiction
    | (rename_i step
       have := step read
       simp only [List.length_cons]
       omega)

/-- Whether a class starts with a negation mark, and what follows the mark. -/
def readNegation : List Char → Bool × List Char
  | '!' :: rest => (true, rest)
  | '^' :: rest => (true, rest)
  | chars => (false, chars)

theorem readNegation_length (chars : List Char) :
    (readNegation chars).2.length ≤ chars.length := by
  unfold readNegation
  split <;> simp

/-- A class behind its opening bracket, and what follows it. -/
def readNegatableClass (chars : List Char) : Except PatternError (Part × List Char) :=
  match readClass true false [] (readNegation chars).2 with
  | .ok (ranges, rest) =>
    .ok (.atom (.oneOf (readNegation chars).1 (ranges.flatMap byteRanges)), rest)
  | .error error => .error error

theorem readNegatableClass_length {chars rest : List Char} {part : Part}
    (read : readNegatableClass chars = .ok (part, rest)) : rest.length < chars.length := by
  unfold readNegatableClass at read
  split at read
  case h_1 ranges after found =>
    cases read
    exact Nat.lt_of_lt_of_le (readClass_length found) (readNegation_length chars)
  case h_2 => contradiction

theorem Parsing.stars_length (parsing : Parsing) (rest : List Char) :
    (parsing.stars rest).2.length ≤ rest.length := by
  unfold Parsing.stars
  repeat' split
  all_goals simp

/-- The pattern with the rest of its text read. -/
def parse (parsing : Parsing) (chars : List Char) : Except PatternError Parsing :=
  match chars with
  | [] => .ok parsing
  | '?' :: rest => parse (parsing.push (.atom .any) '?') rest
  | '*' :: '*' :: rest => parse (parsing.stars rest).1 (parsing.stars rest).2
  | '*' :: rest => parse (parsing.push (.atom .star) '*') rest
  | '[' :: rest =>
    match _read : readNegatableClass rest with
    | .ok (part, after) => parse (parsing.push part ']') after
    | .error error => .error error
  | '\x7b' :: rest => parse parsing.openGroup rest
  | '\x7d' :: rest =>
    match parsing.closeGroup with
    | .ok closed => parse closed rest
    | .error error => .error error
  | ',' :: rest => parse parsing.comma rest
  | '\\' :: [] => .error .danglingEscape
  | '\\' :: char :: rest => parse (parsing.push (.literal char) char) rest
  | char :: rest => parse (parsing.push (.literal char) char) rest
termination_by chars.length
decreasing_by
  all_goals simp only [List.length_cons]
  all_goals first
    | omega
    | exact Nat.lt_succ_of_lt (readNegatableClass_length ‹_›)
    | grind [Parsing.stars_length]

/-- A pattern: the sequences of which a path must match one. -/
structure Pattern where
  /-- The sequences; none at all stand for a pattern that matches everything. -/
  choices : List (List Atom)
deriving DecidableEq, Repr

/-- The pattern that a text spells. -/
def Pattern.read (text : String) : Except PatternError Pattern := do
  let parsing ← parse ⟨[], [], none⟩ text.toList
  if !parsing.groups.isEmpty then throw .unclosedGroup
  if parsing.current == [.atom .directories] then return ⟨[]⟩
  return ⟨choicesOf parsing.current.reverse⟩

end Haxify.Glob
