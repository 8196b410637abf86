import ScopeScript.Excerpt.Report
import ScopeScript.Proofs.Excerpt.Offset

namespace ScopeScript

namespace Excerpt

end Excerpt

-- A carriage return ends a row and no line: the message says line 1, and the report shows row 2.
theorem reports_place_return :
    let source := "print 1;\r@"
    Item.fault ⟨.stray '@', ⟨1, 10⟩⟩ ∈ items source ∧
      Excerpt.report source .error 1 10 "[line 1] Error: Unexpected character: @" =
        "Error: [line 1] Error: Unexpected character: @\n   ╭─[ <input>:2:1 ]\n   │\n 2 │ @\n   │ ┬  \n" ++
          "   │ ╰── [line 1] Error: Unexpected character: @\n───╯\n" := by
  decide +kernel

end ScopeScript
