namespace PushAudit.Text

def chomp (line : List Char) : List Char :=
  if line.getLast? = some '\r' then line.dropLast else line

/-- The lines of a text. A line feed ends a line and takes one carriage return before it along;
what follows the last line feed is a line as it stands, unless it is empty. -/
def lines (text : List Char) : List (List Char) :=
  let pieces := text.splitOn '\n'
  let last := pieces.getLastD []
  pieces.dropLast.map chomp ++ if last.isEmpty then [] else [last]

def unlines (ls : List (List Char)) : List Char := ls.flatMap (· ++ ['\n'])

end PushAudit.Text
