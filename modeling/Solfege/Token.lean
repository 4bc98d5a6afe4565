import Solfege.Program

/-!
# Solfege.Token

The words of the notation, with their places in a source.

* `Token`    — a keyword, a word, a number, a slash, a line break or a blank.
* `Position` — line and column, both counted from one; a column is one character.
* `Lexeme`   — a token with the characters it was read from and the position of the first.
-/

namespace Solfege

inductive Token where
  | tempo
  | meter
  | key
  | mode (mode : Mode)
  | duration (duration : Duration)
  /-- Note names, key roots and anything else made of letters and `#`. -/
  | word (text : String)
  | number (value : Nat)
  | slash
  | newline
  | blank
  deriving DecidableEq, Repr

namespace Token

def duration? : Token → Option Duration
  | .duration d => some d
  | _ => none

/-- The name of the token in listings and messages. -/
def text : Token → String
  | .tempo => "<TEMPO>"
  | .meter => "<COMPAS>"
  | .key => "<TONALIDAD>"
  | .mode .major => "<MAYOR>"
  | .mode .minor => "<MENOR>"
  | .duration .half => "<BLANCA>"
  | .duration .quarter => "<NEGRA>"
  | .duration .eighth => "<CORCHEA>"
  | .duration .sixteenth => "<SEMICORCHEA>"
  | .word text => "<PALABRA " ++ text ++ ">"
  | .number value => "<NUMERO " ++ value.repr ++ ">"
  | .slash => "<BARRA>"
  | .newline => "<NUEVA_LINEA>"
  | .blank => "<ESPACIO>"

end Token

structure Position where
  line : Nat
  column : Nat
  deriving DecidableEq, Repr

namespace Position

def start : Position := ⟨1, 1⟩

/-- The position after one more character. -/
def next (p : Position) (c : Char) : Position :=
  if c = '\n' then ⟨p.line + 1, 1⟩ else ⟨p.line, p.column + 1⟩

/-- The position after a text. -/
def after (p : Position) (text : List Char) : Position :=
  text.foldl next p

@[simp] theorem after_nil (p : Position) : p.after [] = p := rfl

@[simp] theorem after_cons (p : Position) (c : Char) (text : List Char) :
    p.after (c :: text) = (p.next c).after text := rfl

theorem after_append (p : Position) (first second : List Char) :
    p.after (first ++ second) = (p.after first).after second := by
  simp [after]

end Position

structure Lexeme where
  token : Token
  source : List Char
  position : Position
  deriving DecidableEq, Repr

end Solfege
