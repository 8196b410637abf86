import Mathlib.Data.Set.Function
import ScopeScript.Proofs.Decimal.Layout
import ScopeScript.Proofs.Grammar.Reread
import ScopeScript.Proofs.Session.Respell

namespace ScopeScript

-- A finite number is written as a word that only a number can have.
theorem NumberWord.withPoint {x : Float} (finite : Decimal.Finite x) : NumberWord (Decimal.withPoint x) := by
  obtain ⟨negative, size, given⟩ := finite
  obtain ⟨figures, -⟩ := size.text_reads (Decimal.Double.ofBits_proper given)
  rw [Decimal.withPoint_eq given]
  obtain ⟨opens, inside⟩ := Decimal.signed_figures negative figures
  refine ⟨opens, fun c member => ?_⟩
  have apart : ∀ d : Char, d.isDigit = false → d ≠ '.' → d ≠ '-' → c ≠ d := by
    rintro d digit point minus rfl
    rcases inside c member with figure | dot | sign
    · rw [figure] at digit
      cases digit
    · exact point dot
    · exact minus sign
  refine ⟨apart '(' rfl (by decide) (by decide), ?_⟩
  simp [Form.ends, apart ' ' rfl (by decide) (by decide), apart ')' rfl (by decide) (by decide),
    apart '\n' rfl (by decide) (by decide)]

-- Neither a text nor a number that is too large.
def Literal.Finite : Literal → Prop
  | .number x => Decimal.Finite x
  | .string _ => False
  | _ => True

namespace Session

variable {a b : String} {s t read next : Session} {p q : List Stmt}

-- One reader of outlines serves all programs.
theorem parse_rereads {source : String} {program : List Stmt} (parsed : parse source s = (.done program, read))
    (finite : ∀ l ∈ Stmt.gatherAll Code.literals program, l.Finite) :
    Form.stmts? (Function.invFunOn Decimal.withPoint Decimal.Finite) (Stmt.forms program) =
      some (Stmt.renameAll .bare program) ∧ Form.WordedAll (Stmt.forms program) := by
  obtain ⟨body, stop, scanned, inner, -, derived, -, -⟩ := Inquiry.root_done (parse_root parsed 0)
  have fits : ∀ t ∈ body, t.Fits := by
    intro t member
    rcases tokens_lexemes scanned t (List.mem_append_left _ member) with lexeme | ⟨place, rfl⟩
    · exact lexeme
    · cases inner _ member
  cases derived with
  | stmts h =>
    refine h.rereads fits fun l member => ?_
    have bounded := finite l member
    cases l with
    | number x => exact ⟨Decimal.withPoint_injective.leftInvOn_invFunOn bounded, .withPoint bounded⟩
    | string text => exact bounded.elim
    | _ => trivial

-- Programs with one outline differ in ids and places only.
theorem outlines_tell_apart (first : parse a s = (.done p, read)) (second : parse b t = (.done q, next))
    (hp : ∀ l ∈ Stmt.gatherAll Code.literals p, l.Finite) (hq : ∀ l ∈ Stmt.gatherAll Code.literals q, l.Finite)
    (same : outlineProgram p = outlineProgram q) : Stmt.renameAll .bare p = Stmt.renameAll .bare q := by
  obtain ⟨reread, worded⟩ := parse_rereads first hp
  obtain ⟨reread', worded'⟩ := parse_rereads second hq
  rw [outlineProgram_eq, outlineProgram_eq] at same
  have forms := Form.lines_cancel worded worded' same
  rw [forms, reread'] at reread
  exact (Option.some.inj reread).symm

section

-- for (;;) print a + 1;
def clausedSource : String := "for (;;) print a + 1;"

-- while (true) print a + 1.0;
def spelledSource : String := "while (true) print a + 1.0;"

def loopNumber : Float := Decimal.ofDigits ['1'] []

def clausedTokens (x : Float) : List Token :=
  [firstLine 1 (.keyword .forWord) "for", firstLine 5 (.mark .leftParen) "(", firstLine 6 (.mark .semicolon) ";",
    firstLine 7 (.mark .semicolon) ";", firstLine 8 (.mark .rightParen) ")", firstLine 10 (.keyword .printWord) "print",
    firstLine 16 .identifier "a", firstLine 18 (.mark .plus) "+", firstLine 20 (.number x) "1",
    firstLine 21 (.mark .semicolon) ";", firstLine 22 .stop ""]

def spelledTokens (x : Float) : List Token :=
  [firstLine 1 (.keyword .whileWord) "while", firstLine 7 (.mark .leftParen) "(", firstLine 8 (.keyword .trueWord) "true",
    firstLine 12 (.mark .rightParen) ")", firstLine 14 (.keyword .printWord) "print", firstLine 20 .identifier "a",
    firstLine 22 (.mark .plus) "+", firstLine 24 (.number x) "1.0", firstLine 27 (.mark .semicolon) ";",
    firstLine 28 .stop ""]

def loopTree (x : Float) (keyword name operator : Token) : List Stmt :=
  [.loop (.literal .true) (.print keyword (.binary (.variable 0 name) operator (.literal (.number x))))]

def clausedTree (x : Float) : List Stmt :=
  loopTree x (firstLine 10 (.keyword .printWord) "print") (firstLine 16 .identifier "a") (firstLine 18 (.mark .plus) "+")

def spelledTree (x : Float) : List Stmt :=
  loopTree x (firstLine 14 (.keyword .printWord) "print") (firstLine 20 .identifier "a") (firstLine 22 (.mark .plus) "+")

-- A loop with empty clauses and one with its condition spelled out.
theorem outlines_tell_apart_loops :
    parse clausedSource (.start .unlimited 0) = (.done (clausedTree loopNumber), ⟨.start .unlimited 0, 1⟩) ∧
      parse spelledSource (.start .unlimited 0) = (.done (spelledTree loopNumber), ⟨.start .unlimited 0, 1⟩) ∧
      outlineProgram (clausedTree loopNumber) = outlineProgram (spelledTree loopNumber) ∧
      clausedTree loopNumber ≠ spelledTree loopNumber ∧
      Stmt.renameAll .bare (clausedTree loopNumber) = Stmt.renameAll .bare (spelledTree loopNumber) := by
  have scanned : tokens clausedSource = .ok (clausedTokens loopNumber) := by decide +kernel
  have scanned' : tokens spelledSource = .ok (spelledTokens loopNumber) := by decide +kernel
  have given (x : Float) : readProgram (clausedTokens x) 0 = (.ok (clausedTree x), 1) := by cbv
  have given' (x : Float) : readProgram (spelledTokens x) 0 = (.ok (spelledTree x), 1) := by cbv
  have parsed : parse clausedSource (.start .unlimited 0) = _ := parse_read scanned (given loopNumber)
  have parsed' : parse spelledSource (.start .unlimited 0) = _ := parse_read scanned' (given' loopNumber)
  have number : Decimal.Finite loopNumber := ⟨false, ⟨4503599627370496, -52⟩, by decide +kernel⟩
  have finite (keyword name operator : Token) :
      ∀ l ∈ Stmt.gatherAll Code.literals (loopTree loopNumber keyword name operator), l.Finite := by
    intro l member
    simp only [loopTree, Stmt.gatherAll, Stmt.gather, Expr.gather, Code.literals, List.append_nil, List.nil_append,
      List.cons_append, List.mem_cons, List.not_mem_nil, or_false] at member
    rcases member with rfl | rfl
    · trivial
    · exact number
  have same : outlineProgram (clausedTree loopNumber) = outlineProgram (spelledTree loopNumber) := by decide +kernel
  exact ⟨parsed, parsed', same, by simp [clausedTree, spelledTree, loopTree, firstLine],
    outlines_tell_apart parsed parsed' (finite _ _ _) (finite _ _ _) same⟩

end

end Session

end ScopeScript
