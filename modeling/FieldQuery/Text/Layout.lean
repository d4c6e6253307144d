/-!
# Lines and columns
-/

namespace FieldQuery

/-- The lines with a break between neighbours. -/
def lines (ls : List String) : String :=
  "\n".intercalate ls

/-- The lines with a break after each. -/
def endedLines (ls : List String) : String :=
  String.join (ls.map (· ++ "\n"))

@[simp] theorem endedLines_nil : endedLines [] = "" := rfl

@[simp] theorem endedLines_singleton (line : String) : endedLines [line] = line ++ "\n" := by
  simp [endedLines]

/-- The text with spaces after it, up to `width` characters. -/
def padRight (width : Nat) (text : String) : String :=
  text ++ String.ofList (List.replicate (width - text.length) ' ')

end FieldQuery
