import ScopeScript.Source.Position
import ScopeScript.Decimal.Layout

namespace ScopeScript

-- Tokens with one fixed spelling made of punctuation.
inductive Mark where
  | leftParen | rightParen | leftBrace | rightBrace
  | comma | dot | minus | plus | semicolon | slash | star
  | bang | bangEqual | equal | equalEqual
  | greater | greaterEqual | less | lessEqual
  deriving DecidableEq, Repr

namespace Mark

def spelling : Mark → String
  | leftParen => "("
  | rightParen => ")"
  | leftBrace => "\x7b"
  | rightBrace => "\x7d"
  | comma => ","
  | dot => "."
  | minus => "-"
  | plus => "+"
  | semicolon => ";"
  | slash => "/"
  | star => "*"
  | bang => "!"
  | bangEqual => "!="
  | equal => "="
  | equalEqual => "=="
  | greater => ">"
  | greaterEqual => ">="
  | less => "<"
  | lessEqual => "<="

def label : Mark → String
  | leftParen => "LEFT_PAREN"
  | rightParen => "RIGHT_PAREN"
  | leftBrace => "LEFT_BRACE"
  | rightBrace => "RIGHT_BRACE"
  | comma => "COMMA"
  | dot => "DOT"
  | minus => "MINUS"
  | plus => "PLUS"
  | semicolon => "SEMICOLON"
  | slash => "SLASH"
  | star => "STAR"
  | bang => "BANG"
  | bangEqual => "BANG_EQUAL"
  | equal => "EQUAL"
  | equalEqual => "EQUAL_EQUAL"
  | greater => "GREATER"
  | greaterEqual => "GREATER_EQUAL"
  | less => "LESS"
  | lessEqual => "LESS_EQUAL"

def all : List Mark :=
  [leftParen, rightParen, leftBrace, rightBrace, comma, dot, minus, plus, semicolon, slash, star,
    bang, bangEqual, equal, equalEqual, greater, greaterEqual, less, lessEqual]

-- The mark that one character spells on its own.
def ofChar? (c : Char) : Option Mark :=
  all.find? fun m => m.spelling.toList == [c]

-- The mark that an equals sign right behind turns this one into.
def withEqual? : Mark → Option Mark
  | bang => some bangEqual
  | equal => some equalEqual
  | greater => some greaterEqual
  | less => some lessEqual
  | _ => none

theorem mem_all (m : Mark) : m ∈ all := by
  cases m <;> decide

end Mark

-- The reserved words.
inductive Keyword where
  | andWord | breakWord | classWord | elseWord | falseWord | funWord | forWord | ifWord | nilWord
  | orWord | printWord | returnWord | superWord | thisWord | trueWord | varWord | whileWord
  deriving DecidableEq, Repr

namespace Keyword

def spelling : Keyword → String
  | andWord => "and"
  | breakWord => "break"
  | classWord => "class"
  | elseWord => "else"
  | falseWord => "false"
  | funWord => "fun"
  | forWord => "for"
  | ifWord => "if"
  | nilWord => "nil"
  | orWord => "or"
  | printWord => "print"
  | returnWord => "return"
  | superWord => "super"
  | thisWord => "this"
  | trueWord => "true"
  | varWord => "var"
  | whileWord => "while"

def label (k : Keyword) : String := String.ofList (k.spelling.toList.map Char.toUpper)

def all : List Keyword :=
  [andWord, breakWord, classWord, elseWord, falseWord, funWord, forWord, ifWord, nilWord,
    orWord, printWord, returnWord, superWord, thisWord, trueWord, varWord, whileWord]

def ofSpelling? (text : List Char) : Option Keyword :=
  all.find? fun k => k.spelling.toList == text

theorem mem_all (k : Keyword) : k ∈ all := by
  cases k <;> decide

end Keyword

inductive TokenKind where
  | mark (m : Mark)
  | keyword (k : Keyword)
  | identifier
  | string (text : String)
  | number (value : Float)
  -- The end of the source.
  | stop
  deriving DecidableEq

namespace TokenKind

def label : TokenKind → String
  | mark m => m.label
  | keyword k => k.label
  | identifier => "IDENTIFIER"
  | string _ => "STRING"
  | number _ => "NUMBER"
  | stop => "EOF"

-- Kinds agree when they differ at most in what they carry.
def agrees : TokenKind → TokenKind → Bool
  | mark m, mark n => m == n
  | keyword k, keyword l => k == l
  | identifier, identifier => true
  | string _, string _ => true
  | number _, number _ => true
  | stop, stop => true
  | _, _ => false

end TokenKind

structure Token where
  kind : TokenKind
  -- The exact piece of source; empty for the end of the source.
  lexeme : String
  -- Where the first character of the lexeme stands.
  position : Position
  deriving DecidableEq

namespace Token

def isMark (t : Token) (m : Mark) : Bool := t.kind == .mark m

def isKeyword (t : Token) (k : Keyword) : Bool := t.kind == .keyword k

def isIdentifier (t : Token) : Bool := t.kind == .identifier

def isStop (t : Token) : Bool := t.kind == .stop

-- Equality that looks past the carried text or number.
def agrees (a b : Token) : Bool :=
  a.kind.agrees b.kind && a.lexeme == b.lexeme && a.position == b.position

-- One line of a token listing: label, lexeme and carried value.
def listing (t : Token) : String :=
  let carried := match t.kind with
    | .string text => text
    | .number value => Decimal.listed value
    | _ => "null"
  t.kind.label ++ " " ++ t.lexeme ++ " " ++ carried

end Token

end ScopeScript
