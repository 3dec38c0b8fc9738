import Haxify.Text.Pieces
import Mathlib.Data.List.Basic

/-!
# Reading Haxe types

Haxe writes a function type as its parameters and its result with arrows between them. Arrows
associate to the right, so what stands between them in one place is one function type; only
parentheses make a function type a part of another. `Void` as the only parameter means that there
is none.

A text is cut into tokens, and a machine with a stack reads them. `Reads` says what a text does to
the machine wherever it stands, by the parts between its arrows.
-/

namespace Haxify.Haxe

open List

/-- A type as Haxe reads it. -/
inductive TypeTree where
  | path (name : String) (arguments : List TypeTree)
  | function (parameters : List TypeTree) (result : TypeTree)

inductive TypeToken where
  | word (text : String)
  | arrow
  | opening
  | closing
  | less
  | greater
  | comma
deriving DecidableEq, Repr

def isTypeWord (char : Char) : Bool := !([' ', '(', ')', '<', '>', ',', '-'].contains char)

/-- Tokens with a character of a word in front, which may go on. -/
def glue (char : Char) (goesOn : Bool) : List TypeToken → List TypeToken
  | .word text :: rest =>
    if goesOn then .word (String.ofList [char] ++ text) :: rest
    else .word (String.ofList [char]) :: .word text :: rest
  | rest => .word (String.ofList [char]) :: rest

def startsWord : List Char → Bool
  | [] => false
  | char :: _ => isTypeWord char

def typeTokens : List Char → Option (List TypeToken)
  | [] => some []
  | ' ' :: rest => typeTokens rest
  | '(' :: rest => (typeTokens rest).map (.opening :: ·)
  | ')' :: rest => (typeTokens rest).map (.closing :: ·)
  | '<' :: rest => (typeTokens rest).map (.less :: ·)
  | '>' :: rest => (typeTokens rest).map (.greater :: ·)
  | ',' :: rest => (typeTokens rest).map (.comma :: ·)
  | '-' :: '>' :: rest => (typeTokens rest).map (.arrow :: ·)
  | '-' :: _ => none
  | char :: rest => (typeTokens rest).map (glue char (startsWord rest))

/-- The type of parts with arrows between them, the last of which is the result. -/
def ofChain (parameters : List TypeTree) (result : TypeTree) : TypeTree :=
  match parameters with
  | [] => result
  | [.path "Void" []] => .function [] result
  | parameters => .function parameters result

/-- What a part of a type stands in, with the parts in front of it there. -/
inductive TypeFrame where
  | group (before : List TypeTree)
  | arguments (before : List TypeTree) (name : String) (done : List TypeTree)

/-- How far a type is read: the frames around, and the parts in front of arrows here. -/
inductive TypeState where
  | part (frames : List TypeFrame) (before : List TypeTree)
  | name (frames : List TypeFrame) (before : List TypeTree) (name : String)
  | done (frames : List TypeFrame) (before : List TypeTree) (last : TypeTree)

/-- Reads on behind a part. -/
def afterPart (frames : List TypeFrame) (before : List TypeTree) (last : TypeTree)
    (token : TypeToken) : Option TypeState :=
  match token, frames with
  | .arrow, frames => some (.part frames (before ++ [last]))
  | .closing, .group outer :: frames => some (.done frames outer (ofChain before last))
  | .comma, .arguments outer name done :: frames =>
    some (.part (.arguments outer name (done ++ [ofChain before last]) :: frames) [])
  | .greater, .arguments outer name done :: frames =>
    some (.done frames outer (.path name (done ++ [ofChain before last])))
  | _, _ => none

def readToken (state : TypeState) (token : TypeToken) : Option TypeState :=
  match state, token with
  | .part frames before, .word text => some (.name frames before text)
  | .part frames before, .opening => some (.part (.group before :: frames) [])
  | .part _ _, _ => none
  | .name frames before name, .less => some (.part (.arguments before name [] :: frames) [])
  | .name frames before name, token => afterPart frames before (.path name []) token
  | .done frames before last, token => afterPart frames before last token

/-- The type that is read when nothing follows. -/
def TypeState.type? : TypeState → Option TypeTree
  | .name [] before text => some (ofChain before (.path text []))
  | .done [] before last => some (ofChain before last)
  | _ => none

def readType (text : String) : Option TypeTree := do
  let tokens ← typeTokens text.toList
  let state ← tokens.foldlM readToken (.part [] [])
  state.type?

/-! ### Cutting -/

/-- A text has these tokens in front of whatever does not go on with a word. -/
def Lexes (text : List Char) (tokens : List TypeToken) : Prop :=
  ∀ rest, startsWord rest = false → typeTokens (text ++ rest) = (typeTokens rest).map (tokens ++ ·)

structure IsTypeWord (name : String) : Prop where
  written : name ≠ ""
  chars : name.toList.all isTypeWord

theorem typeTokens_of_isTypeWord {char : Char} (word : isTypeWord char) (rest : List Char) :
    typeTokens (char :: rest) = (typeTokens rest).map (glue char (startsWord rest)) := by
  rw [typeTokens]
  all_goals
    intros
    subst char
    exact absurd word (by decide)

theorem lexes_chars {chars : List Char} (written : chars ≠ []) (words : chars.all isTypeWord) :
    Lexes chars [.word (String.ofList chars)] := by
  induction chars with
  | nil => exact absurd rfl written
  | cons char more more_lexes =>
    rw [all_cons, Bool.and_eq_true] at words
    intro rest free
    rw [cons_append, typeTokens_of_isTypeWord words.1]
    cases more with
    | nil =>
      rw [nil_append, free]
      congr 1
      funext tokens
      cases tokens with
      | nil => rfl
      | cons token others => cases token <;> rfl
    | cons next others =>
      have goesOn : startsWord (next :: others ++ rest) = true := by
        rw [all_cons, Bool.and_eq_true] at words
        exact words.2.1
      rw [more_lexes (by simp) words.2 rest free, goesOn, Option.map_map]
      congr 1
      funext tokens
      simp [glue]

theorem lexes_word {name : String} (word : IsTypeWord name) : Lexes name.toList [.word name] := by
  have written : name.toList ≠ [] := fun none => word.written (String.toList_eq_nil_iff.mp none)
  have lexes := lexes_chars written word.chars
  rwa [String.ofList_toList] at lexes

/-! ### Reading -/

variable {before : List TypeTree} {last : TypeTree} {state : TypeState} {token : TypeToken}

/-- A part is read, with these parts in front of it. -/
inductive Ends (frames : List TypeFrame) (before : List TypeTree) : TypeTree → TypeState → Prop
  | name (text : String) : Ends frames before (.path text []) (.name frames before text)
  | done (last : TypeTree) : Ends frames before last (.done frames before last)

theorem Ends.readToken {frames : List TypeFrame}
    (ends : Ends frames before last state)
    (other : token ≠ .less) : Haxe.readToken state token = afterPart frames before last token := by
  cases ends with
  | done last => rfl
  | name text =>
    cases token with
    | less => exact absurd rfl other
    | _ => rfl

theorem Ends.type?
    (ends : Ends [] before last state) : state.type? = some (ofChain before last) := by
  cases ends with
  | name text => rfl
  | done last => rfl

theorem foldlM_readToken_append {tokens others : List TypeToken} {start middle : TypeState}
    (run : tokens.foldlM readToken start = some middle) :
    (tokens ++ others).foldlM readToken start = others.foldlM readToken middle := by
  rw [foldlM_append, run]
  rfl

theorem foldlM_readToken_cons {others : List TypeToken}
    {start next : TypeState} (step : readToken start token = some next) :
    (token :: others).foldlM readToken start = others.foldlM readToken next := by
  rw [foldlM_cons, step]
  rfl

/-- A text reads as parts with arrows between them, wherever it stands. -/
structure Reads (text : String) (parameters : List TypeTree) (result : TypeTree) : Prop where
  tokens : ∃ tokens, Lexes text.toList tokens ∧ ∀ frames before, ∃ state,
    tokens.foldlM Haxe.readToken (.part frames before) = some state ∧
      Ends frames (before ++ parameters) result state

namespace Reads

variable {text other name : String} {parameters others : List TypeTree} {result last : TypeTree}

theorem readType (reads : Reads text parameters result) :
    Haxe.readType text = some (ofChain parameters result) := by
  obtain ⟨tokens, lexes, leads⟩ := reads.tokens
  obtain ⟨state, run, ends⟩ := leads [] []
  have cut := lexes [] rfl
  rw [append_nil] at cut
  rw [Haxe.readType, cut]
  change ((tokens ++ []).foldlM Haxe.readToken (.part [] [])).bind TypeState.type? = _
  rw [append_nil, run]
  exact ends.type?

theorem word (isWord : IsTypeWord name) : Reads name [] (.path name []) where
  tokens := by
    refine ⟨_, lexes_word isWord, fun frames before => ⟨_, rfl, ?_⟩⟩
    rw [append_nil]
    exact .name name

theorem group (reads : Reads text parameters result) :
    Reads ("(" ++ text ++ ")") [] (ofChain parameters result) where
  tokens := by
    obtain ⟨tokens, lexes, leads⟩ := reads.tokens
    refine ⟨.opening :: (tokens ++ [.closing]), ?_, fun frames before => ?_⟩
    · intro rest _
      have inner := lexes (')' :: rest) rfl
      have chars : ("(" ++ text ++ ")").toList ++ rest = '(' :: (text.toList ++ ')' :: rest) := by
        simp
      rw [chars, typeTokens, inner, typeTokens, Option.map_map, Option.map_map]
      congr 1
      funext more
      simp
    · obtain ⟨state, run, ends⟩ := leads (.group before :: frames) []
      rw [nil_append] at ends
      refine ⟨.done frames before (ofChain parameters result), ?_, ?_⟩
      · rw [foldlM_readToken_cons rfl, foldlM_readToken_append run]
        exact foldlM_readToken_cons (ends.readToken (by decide))
      · rw [append_nil]
        exact .done _

theorem apply (isWord : IsTypeWord name) (reads : Reads text parameters result) :
    Reads (name ++ "<" ++ text ++ ">") [] (.path name [ofChain parameters result]) where
  tokens := by
    obtain ⟨tokens, lexes, leads⟩ := reads.tokens
    refine ⟨.word name :: .less :: (tokens ++ [.greater]), ?_, fun frames before => ?_⟩
    · intro rest _
      have inner := lexes ('>' :: rest) rfl
      have front := lexes_word isWord ('<' :: (text.toList ++ '>' :: rest)) rfl
      have chars : (name ++ "<" ++ text ++ ">").toList ++ rest =
          name.toList ++ '<' :: (text.toList ++ '>' :: rest) := by simp
      rw [chars, front, typeTokens, inner, typeTokens, Option.map_map, Option.map_map,
        Option.map_map]
      congr 1
      funext more
      simp
    · obtain ⟨state, run, ends⟩ := leads (.arguments before name [] :: frames) []
      rw [nil_append] at ends
      refine ⟨.done frames before (.path name [ofChain parameters result]), ?_, ?_⟩
      · rw [foldlM_readToken_cons rfl, foldlM_readToken_cons rfl, foldlM_readToken_append run]
        exact foldlM_readToken_cons (ends.readToken (by decide))
      · rw [append_nil]
        exact .done _

theorem arrow (first : Reads text parameters result) (second : Reads other others last) :
    Reads (text ++ " -> " ++ other) (parameters ++ result :: others) last where
  tokens := by
    obtain ⟨tokens, lexes, leads⟩ := first.tokens
    obtain ⟨more, relexes, goesOn⟩ := second.tokens
    refine ⟨tokens ++ .arrow :: more, ?_, fun frames before => ?_⟩
    · intro rest free
      have front := lexes (' ' :: '-' :: '>' :: ' ' :: (other.toList ++ rest)) rfl
      have chars : (text ++ " -> " ++ other).toList ++ rest =
          text.toList ++ ' ' :: '-' :: '>' :: ' ' :: (other.toList ++ rest) := by simp
      rw [chars, front, typeTokens, typeTokens, typeTokens, relexes rest free, Option.map_map,
        Option.map_map]
      congr 1
      funext more
      simp
    · obtain ⟨middle, run, ends⟩ := leads frames before
      obtain ⟨state, rerun, final⟩ := goesOn frames (before ++ parameters ++ [result])
      refine ⟨state, ?_, ?_⟩
      · rw [foldlM_readToken_append run, foldlM_readToken_cons (ends.readToken (by decide))]
        exact rerun
      · rw [append_assoc, append_assoc] at final
        exact final

end Reads

end Haxify.Haxe
