namespace Mustache

-- Inside an indented partial each line of a text begins with the indent. No line begins after the
-- last line feed, nor between two line feeds that end the text.
namespace Indent

def opensWithBreak : List Char → Bool
  | '\n' :: _ => true
  | '\r' :: '\n' :: _ => true
  | _ => false

def isOver : List Char → Bool
  | [] => true
  | ['\n'] => true
  | _ => false

def linesFrom (indent done : List Char) : List Char → List Char
  | [] => done.reverse
  | c :: text =>
    if c = '\n' && !isOver text then linesFrom indent (indent.reverse ++ c :: done) text
    else linesFrom indent (c :: done) text

def lines (indent text : List Char) : List Char :=
  linesFrom indent (if opensWithBreak text then [] else indent.reverse) text

def apply (indent text : String) : String :=
  if indent.isEmpty then text else String.ofList (lines indent.toList text.toList)

end Indent
end Mustache
