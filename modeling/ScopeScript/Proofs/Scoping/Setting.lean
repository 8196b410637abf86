import ScopeScript.Scoping.Walk
import ScopeScript.Proofs.Grammar.Mention

namespace ScopeScript

def Stmt.isLoop : Stmt → Bool
  | .loop .. => true
  | _ => false

-- What a run opens a scope for.
inductive Region where
  | block (body : List Stmt)
  | routine (r : Routine)
  -- The scope around the methods of a class that holds their receiver.
  | receiver (methods : List Routine)

-- The tokens that declare a name right in a region. The receiver has none.
def Region.declares : Region → List Token
  | block body => body.flatMap Stmt.declares
  | routine r => r.parameters ++ r.body.flatMap Stmt.declares
  | receiver _ => []

def Region.isReceiver : Region → Bool
  | receiver _ => true
  | _ => false

-- A region around some code: the names declared before the code, and the variables whose
-- initializer it stands in.
structure Frame where
  region : Region
  declared : List Token
  initializing : List Token

def Frame.seen (f : Frame) : List Token := f.declared ++ f.initializing

def Frame.declares (f : Frame) (name : String) : Bool :=
  f.seen.any (·.lexeme == name) || f.region.isReceiver && receiverName == name

theorem Frame.declares_declared (f : Frame) (names : List Token) (name : String) :
    Frame.declares { f with declared := f.declared ++ names } name =
      (names.any (·.lexeme == name) || f.declares name) := by
  simp only [declares, seen, List.any_append]
  ac_rfl

theorem Frame.declares_initializing (f : Frame) (t : Token) (name : String) :
    Frame.declares { f with initializing := t :: f.initializing } name =
      (t.lexeme == name || f.declares name) := by
  simp only [declares, seen, List.any_append, List.any_cons]
  ac_rfl

-- Where code stands: the regions around it, innermost first, the nearest routine, and the
-- statements around it within that routine.
structure Setting where
  frames : List Frame
  body : BodyKind
  around : List Stmt

namespace Setting

def outermost : Setting := ⟨[], .outside, []⟩

def regions (σ : Setting) : List Region := σ.frames.map (·.region)

def loops (σ : Setting) : Nat := σ.around.countP Stmt.isLoop

def inClass (σ : Setting) : Bool := σ.regions.any Region.isReceiver

-- How far out the innermost region with the name is.
def depth (σ : Setting) (name : String) : Option Nat := σ.frames.findIdx? (·.declares name)

def onInnermost (σ : Setting) (change : Frame → Frame) : Setting :=
  match σ.frames with
  | [] => σ
  | f :: outer => { σ with frames := change f :: outer }

-- Outside every region names are global and leave no mark.
def declare (σ : Setting) (names : List Token) : Setting :=
  σ.onInnermost fun f => { f with declared := f.declared ++ names }

def initializing (σ : Setting) (name : Token) : Setting :=
  σ.onInnermost fun f => { f with initializing := name :: f.initializing }

theorem declare_nil (σ : Setting) : σ.declare [] = σ := by
  obtain ⟨frames, body, around⟩ := σ
  cases frames with
  | nil => rfl
  | cons f outer => simp [declare, onInnermost]

theorem declare_append (σ : Setting) (first second : List Token) :
    σ.declare (first ++ second) = (σ.declare first).declare second := by
  obtain ⟨frames, body, around⟩ := σ
  cases frames with
  | nil => rfl
  | cons f outer => simp [declare, onInnermost]

theorem regions_onInnermost (σ : Setting) (change : Frame → Frame)
    (same : ∀ f, (change f).region = f.region) : (σ.onInnermost change).regions = σ.regions := by
  obtain ⟨frames, body, around⟩ := σ
  cases frames with
  | nil => rfl
  | cons f outer => simp [onInnermost, regions, same]

theorem regions_declare (σ : Setting) (names : List Token) : (σ.declare names).regions = σ.regions :=
  σ.regions_onInnermost _ fun _ => rfl

theorem regions_initializing (σ : Setting) (t : Token) : (σ.initializing t).regions = σ.regions :=
  σ.regions_onInnermost _ fun _ => rfl

def enter (σ : Setting) (region : Region) : Setting :=
  { σ with frames := ⟨region, [], []⟩ :: σ.frames }

def nest (σ : Setting) (s : Stmt) : Setting := { σ with around := s :: σ.around }

def enterRoutine (σ : Setting) (kind : BodyKind) (r : Routine) : Setting :=
  ⟨⟨.routine r, r.parameters, []⟩ :: σ.frames, kind, []⟩

end Setting

inductive Code where
  | expr (e : Expr)
  | stmt (s : Stmt)
  | stmts (ss : List Stmt)
  | routine (kind : BodyKind) (r : Routine)

structure Spot where
  setting : Setting
  code : Code

def Expr.parts : Expr → List Code
  | .literal _ => []
  | .grouping inner => [.expr inner]
  | .unary _ operand => [.expr operand]
  | .binary left _ right => [.expr left, .expr right]
  | .logical left _ right => [.expr left, .expr right]
  | .variable _ _ => []
  | .assign _ _ value => [.expr value]
  | .call callee _ arguments => .expr callee :: arguments.map .expr
  | .lambda routine => [.routine .lambda routine]
  | .get object _ => [.expr object]
  | .set object _ value => [.expr object, .expr value]
  | .this _ _ => []

def Routine.methodKind (r : Routine) : BodyKind := if r.isInitializer then .initializer else .method

def Stmt.parts (σ : Setting) : Stmt → List Spot
  | .expression value => [⟨σ, .expr value⟩]
  | .print _ value => [⟨σ, .expr value⟩]
  | .var _ none => []
  | .var name (some initial) => [⟨σ.initializing name, .expr initial⟩]
  | .block body => [⟨(σ.nest (.block body)).enter (.block body), .stmts body⟩]
  | .branch condition yes none =>
    [⟨σ, .expr condition⟩, ⟨σ.nest (.branch condition yes none), .stmt yes⟩]
  | .branch condition yes (some no) =>
    [⟨σ, .expr condition⟩, ⟨σ.nest (.branch condition yes (some no)), .stmt yes⟩,
      ⟨σ.nest (.branch condition yes (some no)), .stmt no⟩]
  | .loop condition body =>
    [⟨σ.nest (.loop condition body), .expr condition⟩, ⟨σ.nest (.loop condition body), .stmt body⟩]
  | .leave _ => []
  | .function routine => [⟨σ.declare [routine.head], .routine .function routine⟩]
  | .giveBack _ none => []
  | .giveBack _ (some value) => [⟨σ, .expr value⟩]
  | .classes name methods =>
    methods.map fun r => ⟨(σ.declare [name]).enter (.receiver methods), .routine r.methodKind r⟩

-- The code right inside other code, and where it stands.
def Spot.parts : Spot → List Spot
  | ⟨σ, .expr e⟩ => e.parts.map (⟨σ, ·⟩)
  | ⟨σ, .stmt s⟩ => s.parts σ
  | ⟨_, .stmts []⟩ => []
  | ⟨σ, .stmts (s :: rest)⟩ => [⟨σ, .stmt s⟩, ⟨σ.declare s.declares, .stmts rest⟩]
  | ⟨σ, .routine kind r⟩ => [⟨σ.enterRoutine kind r, .stmts r.body⟩]

inductive Spot.Within (root : Spot) : Spot → Prop where
  | root : Within root root
  | part (inside : Within root S) (member : T ∈ S.parts) : Within root T

-- A look-up of a name.
inductive Expr.Refers : Expr → RefId → Token → Prop where
  | look : Refers (.variable i name) i name
  | assign : Refers (.assign i name value) i name
  | this : Refers (.this i keyword) i keyword

end ScopeScript
