import Mustache.Context
import Mustache.Document.Assembly
import Mustache.Options
import Mustache.Render.Indent
import Mustache.Value.Json

namespace Mustache

abbrev Cache := List ((String × Delimiters) × Document)

-- What a render keeps to from beginning to end. `reuses` says whether a text that was already read
-- is taken from the cache.
structure Setting where
  host : Host
  partials : Entries (List Node)
  options : Options
  reuses : Bool

structure Walk where
  frames : Frames
  indent : String
  out : String
  cache : Cache
  journal : Journal

-- A render comes to an early end when a text from a lambda is no template, or when partials and
-- such texts are entered too deeply one inside the other.
inductive Fault where
  | parse (cause : ParseError)
  | tooDeep
deriving DecidableEq, Repr

structure Outcome where
  walk : Walk
  fault : Option Fault

namespace Walk

def start (root : Value) (journal : Journal) : Walk := ⟨.ofRoot root, "", "", [], journal⟩

def done (w : Walk) : Outcome := ⟨w, none⟩

def writeText (w : Walk) (text : String) : Walk :=
  { w with out := w.out ++ Indent.apply w.indent text }

def writeValue (w : Walk) (text : String) : Walk := { w with out := w.out ++ w.indent ++ text }

def writePlain (w : Walk) (text : String) : Walk := { w with out := w.out ++ text }

end Walk

namespace Setting

def lookUp (s : Setting) (w : Walk) (key raw : String) : Option Resolved × Walk :=
  let (found, journal) := s.host.resolve w.frames key raw w.journal
  (found, { w with journal := journal })

def find? (text : String) (pair : Delimiters) : Cache → Option Document
  | [] => none
  | ((text', pair'), document) :: rest =>
    if text' = text && pair' = pair then some document else find? text pair rest

def compile (s : Setting) (text : String) (pair : Delimiters) (cache : Cache) :
    Except ParseError Document × Cache :=
  match if s.reuses then find? text pair cache else none with
  | some document => (.ok document, cache)
  | none =>
    match Document.parseWith pair text with
    | .error cause => (.error cause, cache)
    | .ok document => (.ok document, ((text, pair), document) :: cache)

-- A text from a lambda is walked apart, without indent, inside the scope of the path that led to
-- it. The partials that it defines itself are not used.
def expand (s : Setting) (enter : List Node → Walk → Outcome) (text : String) (pair : Delimiters)
    (scope : List Value) (w : Walk) : Except Fault String × Walk :=
  match s.compile text pair w.cache with
  | (.error cause, cache) => (.error (.parse cause), { w with cache := cache })
  | (.ok document, cache) =>
    let frames := w.frames.extend scope
    let inner := enter document.root ⟨frames, "", "", cache, w.journal⟩
    let w := { w with cache := inner.walk.cache, journal := inner.walk.journal }
    match inner.fault with
    | some fault => (.error fault, w)
    | none => (.ok inner.walk.out, w)

def writeInterpolated (s : Setting) (escaped : Bool) (text : String) (w : Walk) : Walk :=
  w.writeValue (if escaped then s.options.escape.apply text else text)

def interpolate (s : Setting) (enter : List Node → Walk → Outcome) (key : String) (escaped : Bool)
    (w : Walk) : Outcome :=
  match s.lookUp w key "" with
  | (none, w) => w.done
  | (some (.value .null), w) => w.done
  | (some (.value value), w) => (s.writeInterpolated escaped value.toText w).done
  | (some (.template text scope), w) =>
    match s.expand enter text .standard scope w with
    | (.error fault, w) => ⟨w, some fault⟩
    | (.ok text, w) => (s.writeInterpolated escaped text w).done

def passEach (body : Walk → Outcome) : List Value → Walk → Outcome
  | [], w => w.done
  | item :: rest, w =>
    let pass := body { w with frames := w.frames.push item }
    let w := { pass.walk with frames := pass.walk.frames.pop }
    match pass.fault with
    | some fault => ⟨w, some fault⟩
    | none => passEach body rest w

def showSection (s : Setting) (enter : List Node → Walk → Outcome) (key raw : String)
    (pair : Delimiters) (body : Walk → Outcome) (w : Walk) : Outcome :=
  match s.lookUp w key raw with
  | (none, w) => w.done
  | (some (.template text scope), w) =>
    match s.expand enter text pair scope w with
    | (.error fault, w) => ⟨w, some fault⟩
    | (.ok text, w) => (w.writePlain text).done
  | (some (.value value), w) =>
    match Passes.of value with
    | .skip => w.done
    | .once => body w
    | .each items => passEach body items w

-- The children are shown exactly where a section would show nothing. A text from a lambda is
-- something, whatever it says, and is not read.
def showInverted (s : Setting) (key raw : String) (body : Walk → Outcome) (w : Walk) : Outcome :=
  match s.lookUp w key raw with
  | (none, w) => body w
  | (some (.template ..), w) => w.done
  | (some (.value value), w) => if (Passes.of value).isSkip then body w else w.done

def showPartial (s : Setting) (enter : List Node → Walk → Outcome) (key indent : String)
    (w : Walk) : Outcome :=
  match s.partials.get? key with
  | none => w.done
  | some nodes =>
    let outer := w.indent
    let inner := enter nodes { w with indent := outer ++ indent }
    { inner with walk := { inner.walk with indent := outer } }

mutual
def visit (s : Setting) (enter : List Node → Walk → Outcome) : Node → Walk → Outcome
  | .text text, w => (w.writeText text).done
  | .interpolation key escaped, w => s.interpolate enter key escaped w
  | .block inverted key children raw pair, w =>
    if inverted then s.showInverted key raw (visitAll s enter children) w
    else s.showSection enter key raw pair (visitAll s enter children) w
  | .reference key indent, w => s.showPartial enter key indent w
def visitAll (s : Setting) (enter : List Node → Walk → Outcome) : List Node → Walk → Outcome
  | [], w => w.done
  | node :: rest, w =>
    match visit s enter node w with
    | ⟨w, some fault⟩ => ⟨w, some fault⟩
    | ⟨w, none⟩ => visitAll s enter rest w
end

def walk (s : Setting) : Nat → List Node → Walk → Outcome
  | 0, _, w => ⟨w, some .tooDeep⟩
  | depth + 1, nodes, w => s.visitAll (s.walk depth) nodes w

end Setting
end Mustache
