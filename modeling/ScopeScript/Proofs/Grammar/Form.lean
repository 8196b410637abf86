import Mathlib.Data.List.Basic
import ScopeScript.Grammar.Outline

namespace ScopeScript

-- What an outline is made of: words, and lists between parentheses.
inductive Form where
  | word (text : String)
  | list (parts : List Form)

mutual

def Form.text : Form → String
  | .word text => text
  | .list parts => parenthesized (Form.texts parts)

def Form.texts : List Form → List String
  | [] => []
  | f :: rest => f.text :: Form.texts rest

end

def Token.form (t : Token) : Form := .word t.lexeme

mutual

def Expr.form : Expr → Form
  | .literal value => .word value.outline
  | .grouping inner => .list [.word "group", inner.form]
  | .unary operator operand => .list [operator.form, operand.form]
  | .binary left operator right => .list [operator.form, left.form, right.form]
  | .logical left operator right => .list [operator.form, left.form, right.form]
  | .variable _ name => name.form
  | .assign _ name value => .list [.word "=", name.form, value.form]
  | .call callee _ arguments => .list (.word "call" :: callee.form :: Expr.forms arguments)
  | .lambda routine => .list (.word "fun" :: routine.forms)
  | .get object name => .list [.word ".", object.form, name.form]
  | .set object name value => .list [.word "=", .list [.word ".", object.form, name.form], value.form]
  | .this _ _ => .word receiverName

def Expr.forms : List Expr → List Form
  | [] => []
  | e :: rest => e.form :: Expr.forms rest

def Stmt.form : Stmt → Form
  | .expression value => .list [.word ";", value.form]
  | .print _ value => .list [.word "print", value.form]
  | .var name none => .list [.word "var", name.form]
  | .var name (some initial) => .list [.word "var", name.form, initial.form]
  | .block body => .list (.word "block" :: Stmt.forms body)
  | .branch condition yes none => .list [.word "if", condition.form, yes.form]
  | .branch condition yes (some no) => .list [.word "if", condition.form, yes.form, no.form]
  | .loop condition body => .list [.word "while", condition.form, body.form]
  | .leave _ => .list [.word "break"]
  | .function routine => .list (.word "fun" :: routine.head.form :: routine.forms)
  | .giveBack _ none => .list [.word "return"]
  | .giveBack _ (some value) => .list [.word "return", value.form]
  | .classes name methods => .list (.word "class" :: name.form :: Routine.methodForms methods)

def Stmt.forms : List Stmt → List Form
  | [] => []
  | s :: rest => s.form :: Stmt.forms rest

def Routine.forms : Routine → List Form
  | .mk _ parameters body => .list (parameters.map Token.form) :: Stmt.forms body

def Routine.methodForms : List Routine → List Form
  | [] => []
  | r :: rest => .list (.word "method" :: r.head.form :: r.forms) :: Routine.methodForms rest

end

theorem Form.texts_eq (fs : List Form) : Form.texts fs = fs.map Form.text := by
  induction fs with
  | nil => rfl
  | cons f rest ih => rw [Form.texts, ih, List.map_cons]

theorem Token.form_text (t : Token) : t.form.text = t.lexeme := rfl

-- An outline is the text of its form.
mutual

theorem Expr.outline_eq : (e : Expr) → e.outline = e.form.text
  | .literal _ => rfl
  | .grouping inner => by simp [Expr.outline, Expr.form, Form.text, Form.texts, inner.outline_eq]
  | .unary operator operand => by
    simp [Expr.outline, Expr.form, Form.text, Form.texts, Token.form_text, operand.outline_eq]
  | .binary left operator right => by
    simp [Expr.outline, Expr.form, Form.text, Form.texts, Token.form_text, left.outline_eq, right.outline_eq]
  | .logical left operator right => by
    simp [Expr.outline, Expr.form, Form.text, Form.texts, Token.form_text, left.outline_eq, right.outline_eq]
  | .variable _ _ => rfl
  | .assign _ name value => by simp [Expr.outline, Expr.form, Form.text, Form.texts, Token.form_text, value.outline_eq]
  | .call callee _ arguments => by
    simp [Expr.outline, Expr.form, Form.text, Form.texts, callee.outline_eq, Expr.outlines_eq arguments]
  | .lambda routine => by simp [Expr.outline, Expr.form, Form.text, Form.texts, routine.outlines_eq]
  | .get object name => by simp [Expr.outline, Expr.form, Form.text, Form.texts, Token.form_text, object.outline_eq]
  | .set object name value => by
    simp [Expr.outline, Expr.form, Form.text, Form.texts, Token.form_text, object.outline_eq, value.outline_eq]
  | .this _ _ => rfl

theorem Expr.outlines_eq : (es : List Expr) → Expr.outlines es = Form.texts (Expr.forms es)
  | [] => rfl
  | e :: rest => by rw [Expr.outlines, Expr.forms, Form.texts, e.outline_eq, Expr.outlines_eq rest]

theorem Stmt.outline_eq : (s : Stmt) → s.outline = s.form.text
  | .expression value => by simp [Stmt.outline, Stmt.form, Form.text, Form.texts, value.outline_eq]
  | .print _ value => by simp [Stmt.outline, Stmt.form, Form.text, Form.texts, value.outline_eq]
  | .var name none => rfl
  | .var name (some initial) => by
    simp [Stmt.outline, Stmt.form, Form.text, Form.texts, Token.form_text, initial.outline_eq]
  | .block body => by simp [Stmt.outline, Stmt.form, Form.text, Form.texts, Stmt.outlines_eq body]
  | .branch condition yes none => by
    simp [Stmt.outline, Stmt.form, Form.text, Form.texts, condition.outline_eq, yes.outline_eq]
  | .branch condition yes (some no) => by
    simp [Stmt.outline, Stmt.form, Form.text, Form.texts, condition.outline_eq, yes.outline_eq, no.outline_eq]
  | .loop condition body => by
    simp [Stmt.outline, Stmt.form, Form.text, Form.texts, condition.outline_eq, body.outline_eq]
  | .leave _ => rfl
  | .function routine => by
    simp [Stmt.outline, Stmt.form, Form.text, Form.texts, Token.form_text, Routine.name, routine.outlines_eq]
  | .giveBack _ none => rfl
  | .giveBack _ (some value) => by simp [Stmt.outline, Stmt.form, Form.text, Form.texts, value.outline_eq]
  | .classes name methods => by
    simp [Stmt.outline, Stmt.form, Form.text, Form.texts, Token.form_text, Routine.methodOutlines_eq methods]

theorem Stmt.outlines_eq : (ss : List Stmt) → Stmt.outlines ss = Form.texts (Stmt.forms ss)
  | [] => rfl
  | s :: rest => by rw [Stmt.outlines, Stmt.forms, Form.texts, s.outline_eq, Stmt.outlines_eq rest]

theorem Routine.outlines_eq : (r : Routine) → r.outlines = Form.texts r.forms
  | .mk _ parameters body => by
    have names : Form.texts (parameters.map Token.form) = parameters.map Token.lexeme := by
      rw [Form.texts_eq, List.map_map]
      rfl
    rw [Routine.outlines, Routine.forms, Form.texts, Form.text, names, Stmt.outlines_eq body]

theorem Routine.methodOutlines_eq : (rs : List Routine) → Routine.methodOutlines rs = Form.texts (Routine.methodForms rs)
  | [] => rfl
  | r :: rest => by
    simp [Routine.methodOutlines, Routine.methodForms, Form.texts, Form.text, Token.form_text, Routine.name, r.outlines_eq,
      Routine.methodOutlines_eq rest]

end

-- Words end where one of these stands. None of them is part of a word.
def Form.ends (c : Char) : Bool := c == ' ' || c == ')' || c == '\n'

-- A text that goes on behind a form.
def Form.Stops (text : List Char) : Prop := ∀ c ∈ text.head?, Form.ends c = true

mutual

def Form.Worded : Form → Prop
  | .word text => text.toList ≠ [] ∧ ∀ c ∈ text.toList, c ≠ '(' ∧ Form.ends c = false
  | .list parts => Form.WordedAll parts

def Form.WordedAll : List Form → Prop
  | [] => True
  | f :: rest => f.Worded ∧ Form.WordedAll rest

end

-- What makes a word one, as it is computed.
def Form.plainWord (w : String) : Bool := !w.toList.isEmpty && w.toList.all fun c => c != '(' && !Form.ends c

theorem Form.Worded.plain {w : String} (h : Form.plainWord w = true) : (Form.word w).Worded := by
  simpa [plainWord, Worded] using h

namespace Form

-- Further forms, each behind a separator.
def trail (between : Char) (fs : List Form) : List Char := fs.flatMap fun f => between :: f.text.toList

def joined (between : Char) : List Form → List Char
  | [] => []
  | f :: rest => f.text.toList ++ trail between rest

theorem intercalate_texts (between : Char) (fs : List Form) :
    (String.intercalate (String.singleton between) (texts fs)).toList = joined between fs := by
  rw [String.toList_intercalate, String.toList_singleton, texts_eq, List.map_map]
  induction fs with
  | nil => rfl
  | cons f rest ih =>
    cases rest with
    | nil => simp [List.intercalate, joined, trail]
    | cons g rest =>
      simp only [List.intercalate, List.map_cons, List.intersperse_cons_cons, List.flatten_cons] at ih ⊢
      rw [ih]
      simp [joined, trail]

theorem list_text (parts : List Form) : (Form.list parts).text.toList = '(' :: (joined ' ' parts ++ [')']) := by
  rw [Form.text, parenthesized, String.toList_append, String.toList_append, ← intercalate_texts]
  rfl

theorem Worded.starts {f : Form} (h : f.Worded) : ∃ c rest, f.text.toList = c :: rest ∧ ends c = false := by
  cases f with
  | word text =>
    obtain ⟨c, rest, same⟩ := List.exists_cons_of_ne_nil h.1
    exact ⟨c, rest, same, (h.2 c (by simp [same])).2⟩
  | list parts => exact ⟨'(', _, list_text parts, rfl⟩

theorem Stops.nil : Stops [] := by simp [Stops]

theorem Stops.cons {c : Char} (h : ends c = true) (rest : List Char) : Stops (c :: rest) := by
  intro d member
  cases member
  exact h

theorem Stops.trail {between : Char} (h : ends between = true) (fs : List Form) {text : List Char} (stops : Stops text) :
    Stops (trail between fs ++ text) := by
  cases fs with
  | nil => exact stops
  | cons f rest => exact .cons h _

-- A word is over where the text stops.
theorem word_cancel {w v r s : List Char} (hw : ∀ c ∈ w, ends c = false) (hv : ∀ c ∈ v, ends c = false) (hr : Stops r)
    (hs : Stops s) (same : w ++ r = v ++ s) : w = v ∧ r = s := by
  induction w generalizing v with
  | nil =>
    cases v with
    | nil => exact ⟨rfl, same⟩
    | cons d v =>
      rw [List.nil_append] at same
      subst same
      exact absurd (hr d rfl) (by simp [hv d List.mem_cons_self])
  | cons c w ih =>
    cases v with
    | nil =>
      rw [List.nil_append] at same
      subst same
      exact absurd (hs c rfl) (by simp [hw c List.mem_cons_self])
    | cons d v =>
      injection same with first others
      obtain ⟨rest, behind⟩ := ih (fun c member => hw c (List.mem_cons_of_mem _ member))
        (fun c member => hv c (List.mem_cons_of_mem _ member)) others
      exact ⟨by rw [first, rest], behind⟩

-- A text begins with one form at most, and the form ends at one place. Induction on the form.
mutual

theorem cancel : (f : Form) → ∀ {g : Form} {r s : List Char}, f.Worded → g.Worded → Stops r → Stops s →
    f.text.toList ++ r = g.text.toList ++ s → f = g ∧ r = s
  | .word w, .word v, r, s, hf, hg, hr, hs, same => by
    obtain ⟨words, rest⟩ := word_cancel (fun c member => (hf.2 c member).2) (fun c member => (hg.2 c member).2) hr hs same
    exact ⟨congrArg Form.word (String.toList_inj.mp words), rest⟩
  | .word w, .list parts, r, s, hf, hg, _, _, same => by
    obtain ⟨c, rest, given⟩ := List.exists_cons_of_ne_nil hf.1
    rw [Form.text, given, list_text] at same
    exact absurd (List.cons.inj same).1 (hf.2 c (by simp [given])).1
  | .list parts, .word w, r, s, hf, hg, _, _, same => by
    obtain ⟨c, rest, given⟩ := List.exists_cons_of_ne_nil hg.1
    rw [Form.text.eq_1 w, given, list_text] at same
    exact absurd (List.cons.inj same).1.symm (hg.2 c (by simp [given])).1
  | .list parts, .list others, r, s, hf, hg, hr, hs, same => by
    rw [list_text, list_text] at same
    have inside : joined ' ' parts ++ ')' :: r = joined ' ' others ++ ')' :: s := by simpa using same
    obtain ⟨equal, rest⟩ := cancelJoined parts hf hg inside
    exact ⟨congrArg Form.list equal, rest⟩

theorem cancelJoined : (fs : List Form) → ∀ {gs : List Form} {r s : List Char}, WordedAll fs → WordedAll gs →
    joined ' ' fs ++ ')' :: r = joined ' ' gs ++ ')' :: s → fs = gs ∧ r = s
  | [], [], _, _, _, _, same => ⟨rfl, (List.cons.inj same).2⟩
  | [], g :: rest, _, _, _, hg, same => by
    obtain ⟨c, more, given, apart⟩ := hg.1.starts
    rw [joined, joined, given] at same
    rw [← (List.cons.inj same).1] at apart
    cases apart
  | f :: rest, [], _, _, hf, _, same => by
    obtain ⟨c, more, given, apart⟩ := hf.1.starts
    rw [joined, joined, given] at same
    rw [(List.cons.inj same).1] at apart
    cases apart
  | f :: rest, g :: others, r, s, hf, hg, same => by
    rw [joined, joined, List.append_assoc, List.append_assoc] at same
    obtain ⟨first, behind⟩ := cancel f hf.1 hg.1 (.trail rfl rest (.cons rfl r)) (.trail rfl others (.cons rfl s)) same
    obtain ⟨further, close⟩ := cancelTrail rest hf.2 hg.2 rfl (.cons rfl r) (.cons rfl s) (by simp) (by simp) behind
    exact ⟨by rw [first, further], (List.cons.inj close).2⟩

theorem cancelTrail : (fs : List Form) → ∀ {gs : List Form} {between : Char} {r s : List Char}, WordedAll fs → WordedAll gs →
    ends between = true → Stops r → Stops s → r.head? ≠ some between → s.head? ≠ some between →
    trail between fs ++ r = trail between gs ++ s → fs = gs ∧ r = s
  | [], [], _, _, _, _, _, _, _, _, _, _, same => ⟨rfl, same⟩
  | [], g :: rest, between, r, s, _, _, _, _, _, apart, _, same => by
    rw [show r = between :: _ from same] at apart
    exact absurd rfl apart
  | f :: rest, [], between, r, s, _, _, _, _, _, _, apart, same => by
    rw [← show _ = s from same] at apart
    exact absurd rfl apart
  | f :: rest, g :: others, between, r, s, hf, hg, loose, hr, hs, here, there, same => by
    simp only [trail, List.flatMap_cons, List.cons_append, List.append_assoc] at same
    obtain ⟨first, behind⟩ := cancel f hf.1 hg.1 (.trail loose rest hr) (.trail loose others hs) (List.cons.inj same).2
    obtain ⟨further, close⟩ := cancelTrail rest hf.2 hg.2 loose hr hs here there behind
    exact ⟨by rw [first, further], close⟩

end

-- Forms line by line.
theorem lines_cancel {fs gs : List Form} (hf : WordedAll fs) (hg : WordedAll gs)
    (same : String.intercalate "\n" (texts fs) = String.intercalate "\n" (texts gs)) : fs = gs := by
  have equal : joined '\n' fs = joined '\n' gs := by
    rw [← intercalate_texts, ← intercalate_texts]
    exact congrArg String.toList same
  cases fs with
  | nil =>
    cases gs with
    | nil => rfl
    | cons g rest =>
      obtain ⟨c, more, given, -⟩ := hg.1.starts
      rw [joined, joined, given] at equal
      cases equal
  | cons f rest =>
    cases gs with
    | nil =>
      obtain ⟨c, more, given, -⟩ := hf.1.starts
      rw [joined, joined, given] at equal
      cases equal
    | cons g others =>
      rw [joined, joined, ← List.append_nil (trail '\n' rest), ← List.append_nil (trail '\n' others)] at equal
      obtain ⟨first, behind⟩ := cancel f hf.1 hg.1 (.trail rfl rest .nil) (.trail rfl others .nil) equal
      obtain ⟨further, -⟩ := cancelTrail rest hf.2 hg.2 rfl .nil .nil (by simp) (by simp) behind
      rw [first, further]

end Form

theorem outlineProgram_eq (program : List Stmt) :
    outlineProgram program = String.intercalate "\n" (Form.texts (Stmt.forms program)) := by
  rw [outlineProgram, Stmt.outlines_eq]

end ScopeScript
