import Mustache.Escape
import Mustache.Json.Reading
import Mustache.Json.Writing

namespace Mustache

structure Options where
  escape : Escape
deriving DecidableEq, Repr

namespace Options
open Json (Written)

def standard : Options := ⟨.html⟩

def toJson (options : Options) : Json := .object [("escape", .string options.escape.name)]

def escapeOf? : Written → Option Escape
  | .string (some name) => Escape.ofName? name
  | .object [(some name, .null)] => Escape.ofName? name
  | _ => none

-- The fields of an object: `found` is the escape that was met before. Other fields are skipped,
-- whatever they hold, but each key has to be a string.
def ofFields? (found : Option Escape) : List (Option String × Written) → Option Options
  | [] => some ⟨found.getD .html⟩
  | (none, _) :: _ => none
  | (some key, value) :: rest =>
    if key = "escape" then
      match found, escapeOf? value with
      | none, some escape => ofFields? (some escape) rest
      | _, _ => none
    else ofFields? found rest

def ofWritten? : Written → Option Options
  | .object entries => ofFields? none entries
  | .array [] => some standard
  | .array [escape] => (escapeOf? escape).map Options.mk
  | _ => none

def read? (text : String) : Option Options := (Written.read? text.toList).bind ofWritten?

end Options
end Mustache
