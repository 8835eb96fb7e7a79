import Lox.Number.Layout
import Lox.Text.Quoted

/-!
Tokens: their kinds, and how a token is listed, recorded and named in a message.
-/

namespace Lox

/-- A string token holds what lies between its quotes, a number token the number it denotes. -/
inductive Kind where
  | leftParen | rightParen | leftBrace | rightBrace
  | comma | dot | minus | plus | semicolon | slash | star | percent | question | colon
  | bang | bangEqual | equal | equalEqual | greater | greaterEqual | less | lessEqual
  | identifier
  | string (contents : String)
  | number (value : Float)
  | kwAnd | kwBreak | kwClass | kwContinue | kwElse | kwFalse | kwFun | kwFor | kwIf | kwNil
  | kwOr | kwPrint | kwReturn | kwSuper | kwThis | kwTrait | kwTrue | kwVar | kwWhile | kwWith
  | eof
deriving DecidableEq, Inhabited

namespace Kind

def name : Kind → String
  | leftParen => "LEFT_PAREN"
  | rightParen => "RIGHT_PAREN"
  | leftBrace => "LEFT_BRACE"
  | rightBrace => "RIGHT_BRACE"
  | comma => "COMMA"
  | dot => "DOT"
  | minus => "MINUS"
  | plus => "PLUS"
  | semicolon => "SEMICOLON"
  | slash => "SLASH"
  | star => "STAR"
  | percent => "PERCENT"
  | question => "QUESTION"
  | colon => "COLON"
  | bang => "BANG"
  | bangEqual => "BANG_EQUAL"
  | equal => "EQUAL"
  | equalEqual => "EQUAL_EQUAL"
  | greater => "GREATER"
  | greaterEqual => "GREATER_EQUAL"
  | less => "LESS"
  | lessEqual => "LESS_EQUAL"
  | identifier => "IDENTIFIER"
  | string _ => "STRING"
  | number _ => "NUMBER"
  | kwAnd => "AND"
  | kwBreak => "BREAK"
  | kwClass => "CLASS"
  | kwContinue => "CONTINUE"
  | kwElse => "ELSE"
  | kwFalse => "FALSE"
  | kwFun => "FUN"
  | kwFor => "FOR"
  | kwIf => "IF"
  | kwNil => "NIL"
  | kwOr => "OR"
  | kwPrint => "PRINT"
  | kwReturn => "RETURN"
  | kwSuper => "SUPER"
  | kwThis => "THIS"
  | kwTrait => "TRAIT"
  | kwTrue => "TRUE"
  | kwVar => "VAR"
  | kwWhile => "WHILE"
  | kwWith => "WITH"
  | eof => "EOF"

/-- The reserved words. -/
def keywords : List (String × Kind) :=
  [("and", kwAnd), ("break", kwBreak), ("class", kwClass), ("continue", kwContinue),
   ("else", kwElse), ("false", kwFalse), ("for", kwFor), ("fun", kwFun), ("if", kwIf),
   ("nil", kwNil), ("or", kwOr), ("print", kwPrint), ("return", kwReturn), ("super", kwSuper),
   ("this", kwThis), ("trait", kwTrait), ("true", kwTrue), ("var", kwVar), ("while", kwWhile),
   ("with", kwWith)]

/-- A word is a reserved word or an identifier. -/
def ofWord (word : String) : Kind :=
  (keywords.lookup word).getD identifier

end Kind

/-- The line is that of the token's last character, counted from one. -/
structure Token where
  kind : Kind
  lexeme : String
  line : Nat
deriving DecidableEq, Inhabited

namespace Token

/-- The token at the end of the input. -/
def eof (line : Nat) : Token := ⟨.eof, "", line⟩

/-- Where a token stands, as a message names the place. -/
def location (t : Token) : String :=
  if t.kind = .eof then " at end" else " at '" ++ t.lexeme ++ "'"

def literalText (t : Token) : String :=
  match t.kind with
  | .string contents => contents
  | .number value => Number.listing value
  | _ => "null"

/-- A token's line in a listing: kind, lexeme and literal. -/
def display (t : Token) : String :=
  t.kind.name ++ " " ++ t.lexeme ++ " " ++ t.literalText

def kindRecord (k : Kind) : String :=
  match k with
  | .string contents => "\x7b" ++ Text.field k.name ++ ":" ++ Text.field contents ++ "\x7d"
  | .number value => "\x7b" ++ Text.field k.name ++ ":" ++ Number.record value ++ "\x7d"
  | _ => Text.field k.name

/-- A token as a one-line record. -/
def record (t : Token) : String :=
  "\x7b\"token_type\":" ++ kindRecord t.kind ++ ",\"lexeme\":" ++ Text.field t.lexeme ++
    ",\"line\":" ++ toString t.line ++ "\x7d"

end Token

end Lox
