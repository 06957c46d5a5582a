import RegisterAllocation.Fault

/-!
# Pages

Text that is written from left to right, with the column of its end. Columns count the bytes of the
text's encoding.
-/

namespace RegisterAllocation

/-- The text written so far and the column of its end. -/
structure Page where
  text : String := ""
  column : Nat := 0
deriving DecidableEq, Repr

namespace Page

def empty : Page := {}

/-- The column after a text that starts in column `column`. -/
def columnAfter (column : Nat) (text : String) : Nat :=
  text.toList.foldl (fun column c => if c = '\n' then 0 else column + c.utf8Size) column

def write (page : Page) (text : String) : Page :=
  ⟨page.text ++ text, columnAfter page.column text⟩

def newline (page : Page) : Page := ⟨page.text ++ "\n", 0⟩

/-- Moves right to a column, on a new line if the page is beyond it. -/
def padTo (page : Page) (column : Nat) : Page :=
  if page.column = column then page
  else if page.column < column then
    ⟨page.text ++ "".pushn ' ' (column - page.column), column⟩
  else ⟨page.text ++ "\n" ++ "".pushn ' ' column, column⟩

/-- Moves to a column, which must not be left of the margin: then only the new line is written. -/
def indentTo (page : Page) (column : Int64) : Page × Option Fault :=
  if column < 0 then (page.newline, some .negativePadding)
  else (page.padTo column.toNatClampNeg, none)

end Page
end RegisterAllocation
