/-!
# Lines of a text

A line ends at a newline; a carriage return right before the newline belongs to the ending. A text
that ends in a newline has no further, empty line.
-/
namespace SshAuthority.Text

def withoutReturn (line : List Char) : List Char :=
  if line.getLast? = some '\r' then line.dropLast else line

def linesOnto (done : List (List Char)) (line : List Char) : List Char → List (List Char)
  | [] => (if line.isEmpty then done else line.reverse :: done).reverse
  | c :: cs =>
    if c = '\n' then linesOnto (withoutReturn line.reverse :: done) [] cs
    else linesOnto done (c :: line) cs

def lines (text : List Char) : List (List Char) := linesOnto [] [] text

end SshAuthority.Text
