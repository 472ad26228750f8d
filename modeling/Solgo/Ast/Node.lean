import Mathlib.Data.List.Nodup

/-!
# AST nodes and the id generator

The records the modelled parsers of the `ast` package build, the source descriptor every node
carries, the parts of the parse contexts they read, and the builder's id generator. Only the
fields the modelled parsers read or write are kept.
-/

namespace Solgo

/-! ## Node kinds, descriptors and contexts -/

/-- The `ast_pb.NodeType` values the modelled parsers write or test; `other` is any other value
of the enumeration. -/
inductive NodeType
  | contractDefinition
  | kindContract
  | functionDefinition
  | modifierDefinition
  | enumDefinition
  | enumValue
  | bitXorOperation
  | other (name : String)
  deriving DecidableEq, Repr

structure SrcNode where
  id : Nat := 0
  line : Int := 0
  column : Int := 0
  start : Int := 0
  «end» : Int := 0
  length : Int := 0
  parentIndex : Nat := 0
  deriving DecidableEq, Repr

structure TypeDescription where
  typeIdentifier : String
  typeString : String
  deriving DecidableEq, Repr

structure Token where
  line : Int
  column : Int
  start : Int
  stop : Int
  deriving DecidableEq, Repr

structure Ctx where
  startToken : Token
  stopToken : Token
  text : String
  deriving DecidableEq, Repr

namespace SrcNode

def ofCtx (id : Nat) (ctx : Ctx) (parentIndex : Nat) : SrcNode where
  id := id
  line := ctx.startToken.line
  column := ctx.startToken.column
  start := ctx.startToken.start
  «end» := ctx.stopToken.stop
  length := ctx.stopToken.stop - ctx.startToken.start + 1
  parentIndex := parentIndex

def ofEnumCtx (id : Nat) (ctx : Ctx) (parentIndex : Nat) : SrcNode where
  id := id
  line := ctx.startToken.line
  column := ctx.startToken.column
  start := ctx.startToken.start
  «end» := ctx.stopToken.stop
  length := ctx.stopToken.stop - ctx.startToken.start
  parentIndex := parentIndex

@[simp] theorem ofCtx_id (id : Nat) (ctx : Ctx) (p : Nat) : (ofCtx id ctx p).id = id := rfl

@[simp] theorem ofCtx_parentIndex (id : Nat) (ctx : Ctx) (p : Nat) :
    (ofCtx id ctx p).parentIndex = p := rfl

@[simp] theorem ofEnumCtx_id (id : Nat) (ctx : Ctx) (p : Nat) : (ofEnumCtx id ctx p).id = id := rfl

@[simp] theorem ofEnumCtx_parentIndex (id : Nat) (ctx : Ctx) (p : Nat) :
    (ofEnumCtx id ctx p).parentIndex = p := rfl

theorem ofEnumCtx_length_succ (id : Nat) (ctx : Ctx) (parentIndex : Nat) :
    ofCtx id ctx parentIndex =
      { ofEnumCtx id ctx parentIndex with length := (ofEnumCtx id ctx parentIndex).length + 1 } :=
  rfl

end SrcNode

/-! ## Nodes -/

structure Parameter where
  id : Nat
  src : SrcNode
  name : String
  nodeType : NodeType
  typeDescription : Option TypeDescription
  deriving DecidableEq, Repr

structure EnumDefinition where
  sourceUnitName : String
  id : Nat
  nodeType : NodeType
  src : SrcNode
  name : String
  canonicalName : String
  typeDescription : Option TypeDescription
  members : List Parameter
  deriving DecidableEq, Repr

structure NodeRef where
  id : Nat
  deriving DecidableEq, Repr

structure BaseContract where
  id : Nat
  baseName : String
  referencedDeclaration : Nat
  deriving DecidableEq, Repr

structure BodyNode where
  nodeType : NodeType
  implemented : Bool
  deriving DecidableEq, Repr

structure Contract where
  id : Nat
  name : String
  nodeType : NodeType
  src : SrcNode
  abstract : Bool
  kind : NodeType
  fullyImplemented : Bool
  nodes : List NodeRef
  linearizedBaseContracts : List Nat
  baseContracts : List BaseContract
  contractDependencies : List Nat
  deriving DecidableEq, Repr

structure Symbol where
  id : Nat
  name : String
  absolutePath : String
  deriving DecidableEq, Repr

inductive UnitNode
  | contract (c : Contract)
  | other (n : NodeRef)
  deriving DecidableEq, Repr

structure SourceUnit where
  id : Nat
  name : String
  absolutePath : String
  src : SrcNode
  exportedSymbols : List Symbol
  nodes : List UnitNode
  baseContracts : List BaseContract
  contract : Option Contract
  deriving DecidableEq, Repr

/-! ## The builder -/

/-- The part of `ASTBuilder` the modelled parsers use: the counter behind `GetNextID`, and
`currentEnums`. -/
structure ASTBuilder where
  nextID : Nat
  currentEnums : List EnumDefinition
  deriving DecidableEq, Repr

namespace ASTBuilder

/-- Modelled from the spec: `GetNextID` is declared outside the source. The spec's single
`next_id()` generator hands out its counter and advances it; a build starts it at `1`. -/
def getNextID (b : ASTBuilder) : Nat × ASTBuilder :=
  (b.nextID, { b with nextID := b.nextID + 1 })

@[simp] theorem getNextID_fst (b : ASTBuilder) : b.getNextID.1 = b.nextID := rfl

@[simp] theorem getNextID_nextID (b : ASTBuilder) : b.getNextID.2.nextID = b.nextID + 1 := rfl

@[simp] theorem getNextID_currentEnums (b : ASTBuilder) :
    b.getNextID.2.currentEnums = b.currentEnums := rfl

end ASTBuilder

/-- The ids `l` were handed out, each once, while the counter went from `n` to `k`. -/
def Draws (n k : Nat) (l : List Nat) : Prop :=
  n ≤ k ∧ l.Nodup ∧ ∀ i ∈ l, n ≤ i ∧ i < k

theorem Draws.nil {n k : Nat} (h : n ≤ k) : Draws n k [] :=
  ⟨h, List.nodup_nil, by simp⟩

theorem Draws.cons {m n k i : Nat} {l : List Nat} (h : Draws m k l) (h₀ : n ≤ i) (hi : i < m) :
    Draws n k (i :: l) := by
  obtain ⟨hb, hl, hr⟩ := h
  refine ⟨by omega, List.nodup_cons.mpr ⟨fun hm => ?_, hl⟩, ?_⟩
  · have := hr i hm; omega
  · intro j hj
    rcases List.mem_cons.mp hj with rfl | hj
    · omega
    · have := hr j hj; omega

theorem Draws.append {n m k : Nat} {l₁ l₂ : List Nat} (h₁ : Draws n m l₁) (h₂ : Draws m k l₂) :
    Draws n k (l₁ ++ l₂) := by
  obtain ⟨hb₁, hn₁, hr₁⟩ := h₁
  obtain ⟨hb₂, hn₂, hr₂⟩ := h₂
  refine ⟨hb₁.trans hb₂, List.nodup_append.mpr ⟨hn₁, hn₂, fun i hi hj => ?_⟩, fun i hi => ?_⟩
  · have := hr₁ i hi; have := hr₂ i hj; omega
  · rcases List.mem_append.mp hi with hi | hi
    · have := hr₁ i hi; omega
    · have := hr₂ i hi; omega

theorem Draws.range' (n k : Nat) : Draws n (n + k) (List.range' n k) :=
  ⟨Nat.le_add_right n k, List.nodup_range' n k, fun i hi => by
    simp only [List.mem_range'_1] at hi; omega⟩

end Solgo
