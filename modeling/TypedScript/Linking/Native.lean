/-
Native modules: modules that the host provides under a reserved name. A builtin is a function of the host with a
declared signature; two builtins are the same function only if they have the same identity.
-/
import TypedScript.Typing.Ty

namespace TypedScript

/-- the functions of the module every program may import -/
inductive StandardFunction
  | print
  | len
  | str
  | assert
deriving DecidableEq, Inhabited

/-- which function of the host a builtin is -/
inductive BuiltinId
  | standard (function : StandardFunction)
  /-- a function of the host's own, by a number of its own -/
  | host (number : Nat)
deriving DecidableEq, Inhabited

structure Builtin where
  id : BuiltinId
  name : String
  signature : Signature
deriving Inhabited

structure NativeModule where
  name : String
  builtins : List Builtin
deriving Inhabited

namespace NativeModule

/-- one more builtin, behind the others -/
def add (m : NativeModule) (b : Builtin) : NativeModule := { m with builtins := m.builtins ++ [b] }

/-- names and types of the builtins -/
def exports (m : NativeModule) : List (String × Ty) := m.builtins.map fun b => (b.name, b.signature.ty)

end NativeModule

namespace StandardFunction

def name : StandardFunction → String
  | print => "print"
  | len => "len"
  | str => "str"
  | assert => "assert"

def signature : StandardFunction → Signature
  | print => ⟨[.any], .void⟩
  | len => ⟨[.str], .int⟩
  | str => ⟨[.int], .str⟩
  | assert => ⟨[.bool, .str], .void⟩

def builtin (f : StandardFunction) : Builtin := ⟨.standard f, f.name, f.signature⟩

/-- the module every program may import -/
def module : NativeModule := ⟨"std", [print.builtin, len.builtin, str.builtin, assert.builtin]⟩

end StandardFunction

end TypedScript
