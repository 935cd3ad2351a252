/-!
# Palettes

A piece of a listing plays a role, and a palette gives each role the escape sequence that colours
it.
-/

namespace DeferredIR

/-- What a piece of a listing is. -/
inductive Role where
  | plain
  | op
  | type
  | muted
deriving DecidableEq, Repr

/-- The escape sequences of a terminal, empty where nothing is coloured. -/
structure Palette where
  op : String
  type : String
  muted : String
  reset : String
deriving DecidableEq, Repr

namespace Palette

/-- Blue, green and dim. -/
def ansi : Palette where
  op := "\x1b[34m"
  type := "\x1b[32m"
  muted := "\x1b[2m"
  reset := "\x1b[0m"

/-- No colours. -/
def plain : Palette where
  op := ""
  type := ""
  muted := ""
  reset := ""

def ofBool (enabled : Bool) : Palette := if enabled then ansi else plain

/-- Whether a piece is followed by an escape sequence. -/
def isEnabled (p : Palette) : Bool := p.reset != ""

/-- `text` in the colour of its role. -/
def paint (p : Palette) (role : Role) (text : String) : String :=
  match role with
  | .plain => text
  | .op => p.op ++ text ++ p.reset
  | .type => p.type ++ text ++ p.reset
  | .muted => p.muted ++ text ++ p.reset

end Palette

end DeferredIR
