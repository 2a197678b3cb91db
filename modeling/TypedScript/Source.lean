/-
Places in source text. A `Position` is a line and a column, both counted from one, and a column counts characters. The
counters have 32 bits: behind `2 ^ 32 - 1` they start over at zero. A `Span` is the stretch between two positions.
Reading a text moves a position character by character: `Position.after_append` says that reading two texts one after
the other is reading their concatenation.
-/
namespace TypedScript

/-- line and column of a character, less than `2 ^ 32` wherever a text has led there; `0:0` is the place of what no
source text stands for -/
structure Position where
  line : Nat
  column : Nat
deriving DecidableEq, Inhabited

namespace Position

/-- the place of what the language itself declares -/
def null : Position := ⟨0, 0⟩

/-- where every source text begins -/
def first : Position := ⟨1, 1⟩

/-- one more, in a counter of 32 bits that starts over at zero; where a build has additions checked, it stops there -/
def count (n : Nat) : Nat := (n + 1) % UInt32.size

/-- the position past one character: only a line feed starts a new line -/
def next (p : Position) (c : Char) : Position :=
  if c = '\n' then ⟨count p.line, 1⟩ else ⟨p.line, count p.column⟩

/-- the position past a text that starts at `p` -/
def after (p : Position) (text : List Char) : Position :=
  text.foldl next p

@[simp] theorem after_nil (p : Position) : p.after [] = p := rfl

@[simp] theorem after_cons (p : Position) (c : Char) (text : List Char) :
    p.after (c :: text) = (p.next c).after text := rfl

@[simp] theorem after_append (p : Position) (s t : List Char) : p.after (s ++ t) = (p.after s).after t := by
  simp [after]

/-- `line:column` -/
def render (p : Position) : String :=
  toString p.line ++ ":" ++ toString p.column

end Position

/-- from `start` up to and not including `stop` -/
structure Span where
  start : Position
  stop : Position
deriving DecidableEq, Inhabited

namespace Span

/-- the span of what no source text stands for -/
def null : Span := ⟨.null, .null⟩

/-- the empty span at a position -/
def empty (p : Position) : Span := ⟨p, p⟩

end Span

end TypedScript
