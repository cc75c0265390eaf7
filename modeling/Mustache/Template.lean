import Mustache.Datum
import Mustache.Render.Walk

namespace Mustache

structure Template where
  document : Document
  options : Options
deriving DecidableEq

inductive TemplateError where
  | parse (cause : ParseError)
  | serialization (cause : DatumError)
  | tooDeep
deriving DecidableEq, Repr

def TemplateError.message? : TemplateError → Option String
  | .parse cause => cause.message?.map ("template error: " ++ ·)
  | .serialization cause => some ("serialization error: " ++ cause.message)
  | .tooDeep => some "template error: partials and lambdas are nested too deeply"

def TemplateError.ofFault : Fault → TemplateError
  | .parse cause => .parse cause
  | .tooDeep => .tooDeep

namespace Template

def compileWith (pair : Delimiters) (source : String) : Except TemplateError Template :=
  match Document.parseWith pair source with
  | .error cause => .error (.parse cause)
  | .ok document => .ok ⟨document, .standard⟩

def compile (source : String) : Except TemplateError Template := compileWith .standard source

def withOptions (t : Template) (options : Options) : Template := { t with options := options }

def depthLimit : Nat := 16384

def readAll : List (String × String) → Except ParseError (List (String × Document))
  | [] => .ok []
  | (name, source) :: rest =>
    match Document.parse source with
    | .error cause => .error cause
    | .ok document =>
      match readAll rest with
      | .error cause => .error cause
      | .ok rest => .ok ((name, document) :: rest)

-- A supplied text takes the place of the partial that the template defines under the same name.
-- Only its root is used.
def overlay (partials : Entries (List Node)) (supplied : List (String × Document)) :
    Entries (List Node) :=
  supplied.foldl (fun partials entry => partials.insert entry.1 entry.2.root) partials

def walkWith (t : Template) (host : Host) (depth : Nat) (partials : Entries (List Node))
    (data : Value) (journal : Journal) : Outcome :=
  Setting.walk ⟨host, partials, t.options, true⟩ depth t.document.root (Walk.start data journal)

def resultOf (outcome : Outcome) : Except TemplateError String × Journal :=
  match outcome.fault with
  | none => (.ok outcome.walk.out, outcome.walk.journal)
  | some fault => (.error (.ofFault fault), outcome.walk.journal)

-- All supplied texts are read before anything is asked of the host.
def renderWith (t : Template) (host : Host) (depth : Nat) (supplied : List (String × String))
    (data : Value) (journal : Journal) : Except TemplateError String × Journal :=
  match readAll supplied with
  | .error cause => (.error (.parse cause), journal)
  | .ok documents =>
    resultOf (t.walkWith host depth (overlay t.document.partials documents) data journal)

def render (t : Template) (host : Host) (depth : Nat) (data : Value) (journal : Journal) :
    Except TemplateError String × Journal :=
  t.renderWith host depth [] data journal

def renderDatum (t : Template) (host : Host) (depth : Nat) (datum : Datum) (journal : Journal) :
    Except TemplateError String × Journal :=
  match datum.toValue with
  | .error cause => (.error (.serialization cause), journal)
  | .ok data => t.render host depth data journal

end Template
end Mustache
