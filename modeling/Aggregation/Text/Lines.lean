/-! Texts of whole lines. -/
namespace Aggregation

/-- The text of lines, each with a line break at its end. -/
def unlines (lines : List String) : String :=
  String.join (lines.map (· ++ "\n"))

end Aggregation
