import Mustache.Document.Basic
import Mustache.Tag.Scan

namespace Mustache
open Text

inductive BlockRole where
  | content (inverted : Bool) (contentStart : Nat) (delimiters : Delimiters)
  | definition
deriving DecidableEq

structure OpenBlock where
  key : String
  role : BlockRole
  children : List Node
deriving DecidableEq

-- A document under construction. The open blocks are listed innermost first, and the nodes of the
-- root latest first.
structure Assembly where
  root : List Node
  blocks : List OpenBlock
  partials : Entries (List Node)
deriving DecidableEq

namespace Assembly

def empty : Assembly := ⟨[], [], []⟩

def add (a : Assembly) (node : Node) : Assembly :=
  match a.blocks with
  | [] => { a with root := node :: a.root }
  | block :: outer => { a with blocks := { block with children := node :: block.children } :: outer }

def enter (a : Assembly) (key : String) (role : BlockRole) : Assembly :=
  { a with blocks := ⟨key, role, []⟩ :: a.blocks }

def rawText (source : List Char) (start stop : Nat) : String :=
  String.ofList ((slice? source start stop).getD [])

-- The innermost block ends: a section becomes a node of the block around it, a definition becomes a
-- partial and leaves nothing in its place.
def leave (source : List Char) (a : Assembly) (key : String) (tagStart : Nat) :
    Except ParseError Assembly :=
  match a.blocks with
  | [] => .error (.unexpectedEnd key)
  | block :: outer =>
    if block.key = key then
      match block.role with
      | .content inverted contentStart pair =>
        let raw := rawText source contentStart tagStart
        .ok ({ a with blocks := outer }.add (.block inverted key block.children.reverse raw pair))
      | .definition =>
        match a.partials.get? key with
        | some _ => .error (.duplicatePartial key)
        | none =>
          .ok { a with blocks := outer, partials := a.partials.insert key block.children.reverse }
    else .error (.mismatchedEnd block.key key)

def feed (source : List Char) (a : Assembly) : Item → Except ParseError Assembly
  | .error fault => .error fault
  | .ok (.text text) => .ok (a.add (.text text))
  | .ok (.interpolation key escaped) => .ok (a.add (.interpolation key escaped))
  | .ok (.reference key indent) => .ok (a.add (.reference key indent))
  | .ok (.sectionStart inverted key contentStart pair) =>
    .ok (a.enter key (.content inverted contentStart pair))
  | .ok (.definitionStart key) => .ok (a.enter key .definition)
  | .ok (.blockEnd key tagStart) => a.leave source key tagStart
  | .ok (.delimiterChange _) => .ok a

def finish (a : Assembly) : Except ParseError Document :=
  if a.blocks.isEmpty then .ok ⟨a.root.reverse, a.partials⟩
  else .error (.unterminatedBlocks (a.blocks.reverse.map OpenBlock.key))

end Assembly

namespace Document

def ofItems (source : List Char) (items : List Item) : Except ParseError Document :=
  match items.foldlM (Assembly.feed source) Assembly.empty with
  | .error fault => .error fault
  | .ok a => a.finish

def parseWith (pair : Delimiters) (source : String) : Except ParseError Document :=
  match Scan.start? source pair with
  | .error fault => .error fault
  | .ok scan => ofItems source.toList scan.items

def parse (source : String) : Except ParseError Document := parseWith .standard source

end Document
end Mustache
