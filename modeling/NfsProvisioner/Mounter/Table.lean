import NfsProvisioner.Text.Blank

/-!
# The table of mounted file systems

The host lists what is mounted as text, one line for each file system: the device, the mount point,
and more columns that do not matter here, with blanks between them. Reading goes by blanks alone.
Writing, as the host does it, replaces blanks and backslashes in a column by octal escapes;
reading leaves such escapes as they are.
-/
namespace NfsProvisioner.MountTable

/-- The lines of a text. -/
def lines (text : List Char) : List (List Char) :=
  Text.split '\n' text

/-- The mount point in a line: its second word. -/
def mountPoint? (line : List Char) : Option (List Char) :=
  (Text.words line)[1]?

/-- Whether a table lists a path as a mount point. -/
def lists (table path : String) : Bool :=
  (lines table.toList).any fun line => mountPoint? line == some path.toList

/-- A mounted file system. -/
structure Mounted where
  device : String
  mountPoint : String
  /-- The other columns, as they stand in the table. -/
  rest : String
deriving DecidableEq, Repr

/-- A character of a column as the host writes it. -/
def escapeChar (c : Char) : List Char :=
  if c = ' ' then "\\040".toList
  else if c = '\t' then "\\011".toList
  else if c = '\n' then "\\012".toList
  else if c = '\\' then "\\134".toList
  else [c]

/-- A column as the host writes it. -/
def escapeColumn (column : String) : String :=
  String.ofList (column.toList.flatMap escapeChar)

/-- A line of the table as the host writes it. -/
def renderLine (m : Mounted) : String :=
  escapeColumn m.device ++ " " ++ escapeColumn m.mountPoint ++ " " ++ m.rest ++ "\n"

/-- The table as the host writes it. -/
def render (mounted : List Mounted) : String :=
  String.join (mounted.map renderLine)

end NfsProvisioner.MountTable
