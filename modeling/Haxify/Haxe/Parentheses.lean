/-!
# Parentheses

An expression is put in parentheses unless one pair already encloses all of it.
Parentheses inside string literals do not count.
-/

namespace Haxify.Haxe

/-- Where a reader stands in an expression. -/
inductive Scan where
  /-- Outside of string literals. -/
  | code
  | literal (quote : Char)
  /-- Behind a backslash in a literal that ends with a quote. -/
  | escaped (quote : Char)
deriving DecidableEq, Repr

/-- Whether the pair of parentheses opened first is closed by the last character, from
`depth` open parentheses on. -/
def closesLast (scan : Scan) (depth : Nat) : List Char → Bool
  | [] => depth == 0
  | char :: rest =>
    match scan with
    | .escaped quote => closesLast (.literal quote) depth rest
    | .literal quote =>
      if char = '\\' then closesLast (.escaped quote) depth rest
      else if char = quote then closesLast .code depth rest
      else closesLast (.literal quote) depth rest
    | .code =>
      if char = '"' || char = '\'' then closesLast (.literal char) depth rest
      else if char = '(' then closesLast .code (depth + 1) rest
      else if char = ')' then
        if depth - 1 == 0 && !rest.isEmpty then false
        else closesLast .code (depth - 1) rest
      else closesLast .code depth rest

/-- Whether one pair of parentheses encloses all of an expression. -/
def isWrapped (expression : List Char) : Bool :=
  expression.head? == some '(' && expression.getLast? == some ')'
    && closesLast .code 0 expression

def parenthesize (expression : String) : String :=
  if isWrapped expression.toList then expression else "(" ++ expression ++ ")"

end Haxify.Haxe
