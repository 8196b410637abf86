import ScopeScript.Proofs.Grammar.Rename
import ScopeScript.Proofs.Scoping.Lawful

namespace ScopeScript

-- A number for what a look at a reference found: none for a global, otherwise one more than the depth.
def depthCode (depth : Option Nat) : RefId := depth.elim 0 (· + 1)

def Depths.code (depths : Depths) (i : RefId) : RefId := depthCode depths[i]?

-- Which names each of the scopes around some code declares, innermost first.
abbrev Visible := List (String → Bool)

namespace Visible

def code (visible : Visible) (name : Token) : RefId :=
  depthCode (visible.findIdx? fun declares => declares name.lexeme)

def add (names : List Token) : Visible → Visible
  | [] => []
  | declares :: outer => (fun name => names.any (·.lexeme == name) || declares name) :: outer

def enter (names : List Token) (visible : Visible) : Visible :=
  (fun name => names.any (·.lexeme == name)) :: visible

def enterClass (visible : Visible) : Visible := (fun name => receiverName == name) :: visible

end Visible

-- A tree whose references stand for the depths of their names, whatever ids they had.
mutual

def Expr.locate (place : Position → Position) : Expr → Visible → Expr
  | .literal value, _ => .literal value
  | .grouping inner, visible => .grouping (inner.locate place visible)
  | .unary operator operand, visible =>
    .unary (operator.rename ⟨id, place⟩) (operand.locate place visible)
  | .binary left operator right, visible =>
    .binary (left.locate place visible) (operator.rename ⟨id, place⟩) (right.locate place visible)
  | .logical left operator right, visible =>
    .logical (left.locate place visible) (operator.rename ⟨id, place⟩) (right.locate place visible)
  | .variable _ name, visible => .variable (visible.code name) (name.rename ⟨id, place⟩)
  | .assign _ name value, visible =>
    .assign (visible.code name) (name.rename ⟨id, place⟩) (value.locate place visible)
  | .call callee close arguments, visible =>
    .call (callee.locate place visible) (close.rename ⟨id, place⟩) (Expr.locateAll place arguments visible)
  | .lambda routine, visible => .lambda (routine.locate place visible)
  | .get object name, visible => .get (object.locate place visible) (name.rename ⟨id, place⟩)
  | .set object name value, visible =>
    .set (object.locate place visible) (name.rename ⟨id, place⟩) (value.locate place visible)
  | .this _ keyword, visible => .this (visible.code keyword) (keyword.rename ⟨id, place⟩)

def Expr.locateAll (place : Position → Position) : List Expr → Visible → List Expr
  | [], _ => []
  | e :: rest, visible => e.locate place visible :: Expr.locateAll place rest visible

def Stmt.locate (place : Position → Position) : Stmt → Visible → Stmt
  | .expression value, visible => .expression (value.locate place visible)
  | .print keyword value, visible => .print (keyword.rename ⟨id, place⟩) (value.locate place visible)
  | .var name none, _ => .var (name.rename ⟨id, place⟩) none
  | .var name (some initial), visible =>
    .var (name.rename ⟨id, place⟩) (some (initial.locate place (visible.add [name])))
  | .block body, visible => .block (Stmt.locateAll place body (visible.enter []))
  | .branch condition yes none, visible =>
    .branch (condition.locate place visible) (yes.locate place visible) none
  | .branch condition yes (some no), visible =>
    .branch (condition.locate place visible) (yes.locate place visible) (some (no.locate place visible))
  | .loop condition body, visible => .loop (condition.locate place visible) (body.locate place visible)
  | .leave keyword, _ => .leave (keyword.rename ⟨id, place⟩)
  | .function routine, visible => .function (routine.locate place (visible.add [routine.head]))
  | .giveBack keyword none, _ => .giveBack (keyword.rename ⟨id, place⟩) none
  | .giveBack keyword (some value), visible =>
    .giveBack (keyword.rename ⟨id, place⟩) (some (value.locate place visible))
  | .classes name methods, visible =>
    .classes (name.rename ⟨id, place⟩) (Routine.locateAll place methods (visible.add [name]).enterClass)

def Stmt.locateAll (place : Position → Position) : List Stmt → Visible → List Stmt
  | [], _ => []
  | s :: rest, visible => s.locate place visible :: Stmt.locateAll place rest (visible.add s.declares)

def Routine.locate (place : Position → Position) : Routine → Visible → Routine
  | .mk head parameters body, visible =>
    .mk (head.rename ⟨id, place⟩) (parameters.map (Token.rename ⟨id, place⟩))
      (Stmt.locateAll place body (visible.enter parameters))

def Routine.locateAll (place : Position → Position) : List Routine → Visible → List Routine
  | [], _ => []
  | r :: rest, visible => r.locate place visible :: Routine.locateAll place rest visible

end

namespace Visible

variable (visible : Visible) (ρ : Renaming)

theorem any_rename (names : List Token) (name : String) :
    (names.map (Token.rename ρ)).any (·.lexeme == name) = names.any (·.lexeme == name) := by
  rw [List.any_map]
  rfl

theorem add_rename (names : List Token) : visible.add (names.map (Token.rename ρ)) = visible.add names := by
  cases visible with
  | nil => rfl
  | cons declares outer => simp only [add, any_rename]

theorem enter_rename (names : List Token) :
    visible.enter (names.map (Token.rename ρ)) = visible.enter names := by
  simp only [enter, any_rename]

end Visible

-- The ids a tree had do not matter.
section

variable (ρ : Renaming) (place : Position → Position)

mutual

theorem Expr.locate_rename (e : Expr) (visible : Visible) :
    (e.rename ρ).locate place visible = e.locate (place ∘ ρ.place) visible := by
  cases e with
  | literal value => rfl
  | grouping inner => simp only [Expr.rename, Expr.locate, inner.locate_rename]
  | unary operator operand => simp only [Expr.rename, Expr.locate, operand.locate_rename]; rfl
  | binary left operator right =>
    simp only [Expr.rename, Expr.locate, left.locate_rename, right.locate_rename]; rfl
  | logical left operator right =>
    simp only [Expr.rename, Expr.locate, left.locate_rename, right.locate_rename]; rfl
  | assign i name value => simp only [Expr.rename, Expr.locate, value.locate_rename]; rfl
  | call callee close arguments =>
    simp only [Expr.rename, Expr.locate, callee.locate_rename, Expr.locateAll_rename arguments]; rfl
  | lambda routine => simp only [Expr.rename, Expr.locate, routine.locate_rename]
  | get object name => simp only [Expr.rename, Expr.locate, object.locate_rename]; rfl
  | set object name value =>
    simp only [Expr.rename, Expr.locate, object.locate_rename, value.locate_rename]; rfl
  | this i keyword => rfl
  | _ i name => rfl

theorem Expr.locateAll_rename (es : List Expr) (visible : Visible) :
    Expr.locateAll place (Expr.renameAll ρ es) visible = Expr.locateAll (place ∘ ρ.place) es visible := by
  cases es with
  | nil => rfl
  | cons e rest => simp only [Expr.renameAll, Expr.locateAll, e.locate_rename, Expr.locateAll_rename rest]

theorem Stmt.locate_rename (s : Stmt) (visible : Visible) :
    (s.rename ρ).locate place visible = s.locate (place ∘ ρ.place) visible := by
  cases s with
  | expression value => simp only [Stmt.rename, Stmt.locate, value.locate_rename]
  | print keyword value => simp only [Stmt.rename, Stmt.locate, value.locate_rename]; rfl
  | var name initial =>
    cases initial with
    | none => rfl
    | some e =>
      simp only [Stmt.rename, Stmt.locate, e.locate_rename]
      rw [← Visible.add_rename visible ρ [name]]
      rfl
  | block body => simp only [Stmt.rename, Stmt.locate, Stmt.locateAll_rename body]
  | branch condition yes no =>
    cases no with
    | none => simp only [Stmt.rename, Stmt.locate, condition.locate_rename, yes.locate_rename]
    | some no =>
      simp only [Stmt.rename, Stmt.locate, condition.locate_rename, yes.locate_rename, no.locate_rename]
  | loop condition body => simp only [Stmt.rename, Stmt.locate, condition.locate_rename, body.locate_rename]
  | leave keyword => rfl
  | function routine =>
    simp only [Stmt.rename, Stmt.locate, routine.locate_rename, Routine.rename_head]
    rw [← Visible.add_rename visible ρ [routine.head]]
    rfl
  | giveBack keyword value =>
    cases value with
    | none => rfl
    | some e => simp only [Stmt.rename, Stmt.locate, e.locate_rename]; rfl
  | classes name methods =>
    simp only [Stmt.rename, Stmt.locate, Routine.locateAll_rename methods]
    rw [← Visible.add_rename visible ρ [name]]
    rfl

theorem Stmt.locateAll_rename (ss : List Stmt) (visible : Visible) :
    Stmt.locateAll place (Stmt.renameAll ρ ss) visible = Stmt.locateAll (place ∘ ρ.place) ss visible := by
  cases ss with
  | nil => rfl
  | cons s rest =>
    simp only [Stmt.renameAll, Stmt.locateAll, s.locate_rename, Stmt.locateAll_rename rest, Stmt.rename_declares,
      Visible.add_rename]

theorem Routine.locate_rename (r : Routine) (visible : Visible) :
    (r.rename ρ).locate place visible = r.locate (place ∘ ρ.place) visible := by
  cases r with
  | mk head parameters body =>
    simp only [Routine.rename, Routine.locate, Stmt.locateAll_rename body, Visible.enter_rename, List.map_map]
    rfl

theorem Routine.locateAll_rename (rs : List Routine) (visible : Visible) :
    Routine.locateAll place (Routine.renameAll ρ rs) visible = Routine.locateAll (place ∘ ρ.place) rs visible := by
  cases rs with
  | nil => rfl
  | cons r rest => simp only [Routine.renameAll, Routine.locateAll, r.locate_rename, Routine.locateAll_rename rest]

end

end

theorem Stmt.locateAll_length (place : Position → Position) (ss : List Stmt) (visible : Visible) :
    (Stmt.locateAll place ss visible).length = ss.length := by
  induction ss generalizing visible with
  | nil => rfl
  | cons s rest ih => exact congrArg (· + 1) (ih _)

-- Outside every scope no declaration can be seen.
theorem Stmt.locateAll_append (place : Position → Position) (ss more : List Stmt) :
    Stmt.locateAll place (ss ++ more) [] = Stmt.locateAll place ss [] ++ Stmt.locateAll place more [] := by
  induction ss with
  | nil => rfl
  | cons s rest ih => exact congrArg (s.locate place [] :: ·) ih

namespace Setting

def visible (σ : Setting) : Visible := σ.frames.map Frame.declares

theorem visible_nest (σ : Setting) (s : Stmt) : (σ.nest s).visible = σ.visible := rfl

theorem code_visible (σ : Setting) (name : Token) : σ.visible.code name = depthCode (σ.depth name.lexeme) := by
  unfold Visible.code visible depth
  rw [List.findIdx?_map]
  rfl

theorem visible_declare (σ : Setting) (names : List Token) :
    (σ.declare names).visible = σ.visible.add names := by
  obtain ⟨frames, body, around⟩ := σ
  cases frames with
  | nil => rfl
  | cons f outer => exact congrArg (· :: _) (funext fun name => f.declares_declared names name)

theorem visible_initializing (σ : Setting) (t : Token) :
    (σ.initializing t).visible = σ.visible.add [t] := by
  obtain ⟨frames, body, around⟩ := σ
  cases frames with
  | nil => rfl
  | cons f outer =>
    refine congrArg (· :: _) (funext fun name => (f.declares_initializing t name).trans ?_)
    rw [List.any_cons, List.any_nil, Bool.or_false]

theorem visible_block (σ : Setting) (body : List Stmt) :
    (σ.enter (.block body)).visible = σ.visible.enter [] := rfl

theorem visible_receiver (σ : Setting) (methods : List Routine) :
    (σ.enter (.receiver methods)).visible = σ.visible.enterClass :=
  congrArg (· :: _) (funext fun _ => Bool.true_and _)

theorem visible_enterRoutine (σ : Setting) (kind : BodyKind) (r : Routine) :
    (σ.enterRoutine kind r).visible = σ.visible.enter r.parameters := by
  refine congrArg (· :: _) (funext fun name => ?_)
  simp [Frame.declares, Frame.seen, Region.isReceiver]

end Setting

-- The recorded depths of accepted code are those of its names.
section

variable {lies : Spot → Prop} {depths : Depths}

theorem Lawful.code (lawful : Lawful lies depths) {σ : Setting} {e : Expr} {i : RefId} {name : Token}
    (inside : lies ⟨σ, .expr e⟩) (refers : e.Refers i name) : depths.code i = σ.visible.code name := by
  unfold Depths.code
  rw [lawful.refers inside refers, σ.code_visible]

variable (place : Position → Position)

mutual

theorem Expr.rename_code (lawful : Lawful lies depths) (e : Expr) {σ : Setting} (inside : lies ⟨σ, .expr e⟩) :
    e.rename ⟨depths.code, place⟩ = e.locate place σ.visible := by
  cases e with
  | literal value => rfl
  | grouping inner =>
    have first := inner.rename_code lawful (lawful.part inside List.mem_cons_self)
    simp only [Expr.rename, Expr.locate, first]
  | unary operator operand =>
    have first := operand.rename_code lawful (lawful.part inside List.mem_cons_self)
    simp only [Expr.rename, Expr.locate, first]
    rfl
  | binary left operator right =>
    have first := left.rename_code lawful (lawful.part inside List.mem_cons_self)
    have second := right.rename_code lawful (lawful.part inside (List.mem_cons_of_mem _ List.mem_cons_self))
    simp only [Expr.rename, Expr.locate, first, second]
    rfl
  | logical left operator right =>
    have first := left.rename_code lawful (lawful.part inside List.mem_cons_self)
    have second := right.rename_code lawful (lawful.part inside (List.mem_cons_of_mem _ List.mem_cons_self))
    simp only [Expr.rename, Expr.locate, first, second]
    rfl
  | assign i name value =>
    have first := value.rename_code lawful (lawful.part inside List.mem_cons_self)
    simp only [Expr.rename, Expr.locate, first, lawful.code inside .assign]
    rfl
  | call callee close arguments =>
    have first := callee.rename_code lawful (lawful.part inside List.mem_cons_self)
    have others := Expr.renameAll_code lawful arguments fun e member =>
      lawful.part inside (List.mem_cons_of_mem _ (List.mem_map_of_mem (List.mem_map_of_mem member)))
    simp only [Expr.rename, Expr.locate, first, others]
    rfl
  | lambda routine =>
    have first := routine.rename_code lawful .lambda (lawful.part inside List.mem_cons_self)
    simp only [Expr.rename, Expr.locate, first]
  | get object name =>
    have first := object.rename_code lawful (lawful.part inside List.mem_cons_self)
    simp only [Expr.rename, Expr.locate, first]
    rfl
  | set object name value =>
    have first := object.rename_code lawful (lawful.part inside List.mem_cons_self)
    have second := value.rename_code lawful (lawful.part inside (List.mem_cons_of_mem _ List.mem_cons_self))
    simp only [Expr.rename, Expr.locate, first, second]
    rfl
  | this i keyword =>
    simp only [Expr.rename, Expr.locate, lawful.code inside .this]
    rfl
  | _ i name =>
    simp only [Expr.rename, Expr.locate, lawful.code inside .look]
    rfl

theorem Expr.renameAll_code (lawful : Lawful lies depths) (es : List Expr) {σ : Setting}
    (inside : ∀ e ∈ es, lies ⟨σ, .expr e⟩) :
    Expr.renameAll ⟨depths.code, place⟩ es = Expr.locateAll place es σ.visible := by
  cases es with
  | nil => rfl
  | cons e rest =>
    have first := e.rename_code lawful (inside e List.mem_cons_self)
    have others := Expr.renameAll_code lawful rest fun e member => inside e (List.mem_cons_of_mem _ member)
    simp only [Expr.renameAll, Expr.locateAll, first, others]

theorem Stmt.rename_code (lawful : Lawful lies depths) (s : Stmt) {σ : Setting} (inside : lies ⟨σ, .stmt s⟩) :
    s.rename ⟨depths.code, place⟩ = s.locate place σ.visible := by
  cases s with
  | expression value =>
    have first := value.rename_code lawful (lawful.part inside List.mem_cons_self)
    simp only [Stmt.rename, Stmt.locate, first]
  | print keyword value =>
    have first := value.rename_code lawful (lawful.part inside List.mem_cons_self)
    simp only [Stmt.rename, Stmt.locate, first]
    rfl
  | var name initial =>
    cases initial with
    | none => rfl
    | some e =>
      have first := e.rename_code lawful (lawful.part inside List.mem_cons_self)
      rw [σ.visible_initializing] at first
      simp only [Stmt.rename, Stmt.locate, first]
      rfl
  | block body =>
    have others := Stmt.renameAll_code lawful body (lawful.part inside List.mem_cons_self)
    rw [Setting.visible_block, Setting.visible_nest] at others
    simp only [Stmt.rename, Stmt.locate, others]
  | branch condition yes no =>
    cases no with
    | none =>
      have first := condition.rename_code lawful (lawful.part inside List.mem_cons_self)
      have second := yes.rename_code lawful (lawful.part inside (List.mem_cons_of_mem _ List.mem_cons_self))
      rw [Setting.visible_nest] at second
      simp only [Stmt.rename, Stmt.locate, first, second]
    | some no =>
      have first := condition.rename_code lawful (lawful.part inside List.mem_cons_self)
      have second := yes.rename_code lawful (lawful.part inside (List.mem_cons_of_mem _ List.mem_cons_self))
      have third := no.rename_code lawful
        (lawful.part inside (List.mem_cons_of_mem _ (List.mem_cons_of_mem _ List.mem_cons_self)))
      rw [Setting.visible_nest] at second third
      simp only [Stmt.rename, Stmt.locate, first, second, third]
  | loop condition body =>
    have first := condition.rename_code lawful (lawful.part inside List.mem_cons_self)
    have second := body.rename_code lawful (lawful.part inside (List.mem_cons_of_mem _ List.mem_cons_self))
    rw [Setting.visible_nest] at first second
    simp only [Stmt.rename, Stmt.locate, first, second]
  | leave keyword => rfl
  | function routine =>
    have first := routine.rename_code lawful .function (lawful.part inside List.mem_cons_self)
    rw [σ.visible_declare] at first
    simp only [Stmt.rename, Stmt.locate, first]
  | giveBack keyword value =>
    cases value with
    | none => rfl
    | some e =>
      have first := e.rename_code lawful (lawful.part inside List.mem_cons_self)
      simp only [Stmt.rename, Stmt.locate, first]
      rfl
  | classes name methods =>
    have others := Routine.renameAll_code lawful methods fun r member =>
      lawful.part inside (List.mem_map_of_mem (f := fun r => Spot.mk
        ((σ.declare [name]).enter (.receiver methods)) (.routine r.methodKind r)) member)
    rw [Setting.visible_receiver, Setting.visible_declare] at others
    simp only [Stmt.rename, Stmt.locate, others]
    rfl

theorem Stmt.renameAll_code (lawful : Lawful lies depths) (ss : List Stmt) {σ : Setting}
    (inside : lies ⟨σ, .stmts ss⟩) :
    Stmt.renameAll ⟨depths.code, place⟩ ss = Stmt.locateAll place ss σ.visible := by
  cases ss with
  | nil => rfl
  | cons s rest =>
    have first := s.rename_code lawful (lawful.part inside List.mem_cons_self)
    have others := Stmt.renameAll_code lawful rest (lawful.part inside (List.mem_cons_of_mem _ List.mem_cons_self))
    rw [Setting.visible_declare] at others
    simp only [Stmt.renameAll, Stmt.locateAll, first, others]

theorem Routine.rename_code (lawful : Lawful lies depths) (r : Routine) (kind : BodyKind) {σ : Setting}
    (inside : lies ⟨σ, .routine kind r⟩) :
    r.rename ⟨depths.code, place⟩ = r.locate place σ.visible := by
  cases r with
  | mk head parameters body =>
    have others := Stmt.renameAll_code lawful body (lawful.part inside List.mem_cons_self)
    rw [Setting.visible_enterRoutine] at others
    simp only [Routine.rename, Routine.locate, others]
    rfl

theorem Routine.renameAll_code (lawful : Lawful lies depths) (rs : List Routine) {σ : Setting}
    (inside : ∀ r ∈ rs, lies ⟨σ, .routine r.methodKind r⟩) :
    Routine.renameAll ⟨depths.code, place⟩ rs = Routine.locateAll place rs σ.visible := by
  cases rs with
  | nil => rfl
  | cons r rest =>
    have first := r.rename_code lawful r.methodKind (inside r List.mem_cons_self)
    have others := Routine.renameAll_code lawful rest fun r member => inside r (List.mem_cons_of_mem _ member)
    simp only [Routine.renameAll, Routine.locateAll, first, others]

end

end

end ScopeScript
