import Solgo.Ast.Node
import Mathlib.Data.List.Nodup

/-!
# The `^` expression parser

`BitXorOperation.Parse` draws ids for the node and its `Src`, picks the parent by the priority
rule, and parses each operand with the node as enclosing expression. The dispatcher
`Expression.Parse` and the other expression parsers are outside the source and follow spec §4.2.
-/

namespace Solgo

/-! ## Expressions and contexts -/

structure BitXorOperation (E : Type) where
  id : Nat
  nodeType : NodeType
  src : SrcNode
  expressions : List E
  typeDescriptions : List (Option TypeDescription)

inductive Expr
  | bitXor (f : BitXorOperation Expr)
  | other (id : Nat) (src : SrcNode) (typeDescription : Option TypeDescription)

inductive ExprCtx
  | bitXor (ctx : Ctx) (operands : List ExprCtx)
  | other (ctx : Ctx) (typeDescription : Option TypeDescription)

structure ParentCtx where
  vDeclar : Option Nat
  expNode : Option Nat
  bodyNode : Option Nat
  fnNode : Option Nat
  contractNode : Nat
  deriving DecidableEq, Repr

def ParentCtx.parentIndex (p : ParentCtx) : Nat :=
  (p.vDeclar <|> p.expNode <|> p.bodyNode <|> p.fnNode).getD p.contractNode

@[simp] theorem ParentCtx.parentIndex_expNode (p : ParentCtx) (x : Nat) :
    { p with expNode := some x }.parentIndex = p.vDeclar.getD x := by
  cases h : p.vDeclar <;> simp [parentIndex, h]

namespace Expr

def id : Expr → Nat
  | .bitXor f => f.id
  | .other id _ _ => id

def src : Expr → SrcNode
  | .bitXor f => f.src
  | .other _ src _ => src

def operands : Expr → List Expr
  | .bitXor f => f.expressions
  | .other .. => []

def getTypeDescription : Expr → Option TypeDescription
  | .bitXor f => f.typeDescriptions.headD none
  | .other _ _ typeDescription => typeDescription

end Expr

/-! ## The parser -/

def newBitXorOperationExpression (b : ASTBuilder) : BitXorOperation Expr × ASTBuilder :=
  let (id, b) := b.getNextID
  ({ id := id, nodeType := .bitXorOperation, src := {}, expressions := [],
     typeDescriptions := [] }, b)

def BitXorOperation.parseSrc (f : BitXorOperation Expr) (p : ParentCtx) (ctx : Ctx)
    (b : ASTBuilder) : BitXorOperation Expr × ASTBuilder :=
  let (id, b) := b.getNextID
  let (srcId, b) := b.getNextID
  ({ f with id := id, src := .ofCtx srcId ctx p.parentIndex }, b)

mutual

/-- Modelled from the spec: the dispatcher `Expression.Parse` and the parsers of the expression
kinds other than `^` are outside the source. A `^` context goes to
`NewBitXorOperationExpression` and then through `Parse` (`parse_bitXor_eq`); a node of another
kind gets, as spec §4.2 asks of every node, a fresh id, a `Src` with a fresh id, and the parent
of the priority rule. -/
def Expression.parse (p : ParentCtx) : ExprCtx → ASTBuilder → Expr × ASTBuilder
  | .bitXor ctx operands, b =>
    let (f, b) := newBitXorOperationExpression b
    let (f, b) := f.parseSrc p ctx b
    let (f, b) := BitXorOperation.parseExpressions f p operands b
    (.bitXor f, b)
  | .other ctx typeDescription, b =>
    let (id, b) := b.getNextID
    let (srcId, b) := b.getNextID
    (.other id (.ofCtx srcId ctx p.parentIndex) typeDescription, b)

def BitXorOperation.parseExpressions (f : BitXorOperation Expr) (p : ParentCtx) :
    List ExprCtx → ASTBuilder → BitXorOperation Expr × ASTBuilder
  | [], b => (f, b)
  | expr :: exprs, b =>
    let (parsedExp, b) := Expression.parse { p with expNode := some f.id } expr b
    BitXorOperation.parseExpressions
      { f with expressions := f.expressions ++ [parsedExp],
               typeDescriptions := f.typeDescriptions ++ [parsedExp.getTypeDescription] }
      p exprs b

end

def BitXorOperation.parse (f : BitXorOperation Expr) (p : ParentCtx) (ctx : Ctx)
    (operands : List ExprCtx) (b : ASTBuilder) : Expr × ASTBuilder :=
  let (f, b) := f.parseSrc p ctx b
  let (f, b) := f.parseExpressions p operands b
  (.bitXor f, b)

theorem parse_bitXor_eq (p : ParentCtx) (ctx : Ctx) (operands : List ExprCtx) (b : ASTBuilder) :
    Expression.parse p (.bitXor ctx operands) b =
      (newBitXorOperationExpression b).1.parse p ctx operands (newBitXorOperationExpression b).2 :=
  by rw [Expression.parse]; rfl

def Expression.parseAll (p : ParentCtx) : List ExprCtx → ASTBuilder → List Expr × ASTBuilder
  | [], b => ([], b)
  | e :: es, b =>
    let r := Expression.parse p e b
    let rs := Expression.parseAll p es r.2
    (r.1 :: rs.1, rs.2)

theorem parseExpressions_eq (p : ParentCtx) :
    ∀ (f : BitXorOperation Expr) (es : List ExprCtx) (b : ASTBuilder),
      f.parseExpressions p es b =
        let rs := Expression.parseAll { p with expNode := some f.id } es b
        ({ f with expressions := f.expressions ++ rs.1,
                  typeDescriptions := f.typeDescriptions ++ rs.1.map Expr.getTypeDescription },
          rs.2)
  | f, [], b => by simp [BitXorOperation.parseExpressions, Expression.parseAll]
  | f, e :: es, b => by
    rw [BitXorOperation.parseExpressions]
    simp [parseExpressions_eq p _ es, Expression.parseAll]

theorem parse_bitXor (p : ParentCtx) (ctx : Ctx) (es : List ExprCtx) (b : ASTBuilder) :
    Expression.parse p (.bitXor ctx es) b =
      let rs := Expression.parseAll { p with expNode := some (b.nextID + 1) } es
        { b with nextID := b.nextID + 3 }
      (.bitXor { id := b.nextID + 1, nodeType := .bitXorOperation,
                 src := .ofCtx (b.nextID + 2) ctx p.parentIndex, expressions := rs.1,
                 typeDescriptions := rs.1.map Expr.getTypeDescription }, rs.2) := by
  rw [Expression.parse]
  simp only [newBitXorOperationExpression, ASTBuilder.getNextID, BitXorOperation.parse,
    parseExpressions_eq]
  rfl

theorem parse_other (p : ParentCtx) (ctx : Ctx) (t : Option TypeDescription) (b : ASTBuilder) :
    Expression.parse p (.other ctx t) b =
      (.other b.nextID (.ofCtx (b.nextID + 1) ctx p.parentIndex) t,
        { b with nextID := b.nextID + 2 }) := by
  rw [Expression.parse]
  rfl

theorem bitXorParse_src (f : BitXorOperation Expr) (p : ParentCtx) (ctx : Ctx)
    (es : List ExprCtx) (b : ASTBuilder) :
    (BitXorOperation.parse f p ctx es b).1.src = .ofCtx (b.nextID + 1) ctx p.parentIndex := by
  simp only [BitXorOperation.parse, parseExpressions_eq]
  rfl

/-! ## Ids -/

mutual

def Expr.ids : Expr → List Nat
  | .bitXor ⟨id, _, src, es, _⟩ => id :: src.id :: Expr.idsList es
  | .other id src _ => [id, src.id]

def Expr.idsList : List Expr → List Nat
  | [] => []
  | e :: es => e.ids ++ Expr.idsList es

end

mutual

theorem parse_draws : ∀ (p : ParentCtx) (e : ExprCtx) (b : ASTBuilder),
    Draws b.nextID (Expression.parse p e b).2.nextID (Expression.parse p e b).1.ids
  | p, .bitXor ctx es, b => by
    rw [parse_bitXor]
    dsimp only [Expr.ids]
    exact ((parseAll_draws _ es _).cons (n := b.nextID + 2) (by simp) (by simp)).cons
      (by omega) (by omega)
  | p, .other ctx t, b => by
    rw [parse_other]
    exact ((Draws.nil le_rfl).cons (n := b.nextID + 1) (by simp) (by simp)).cons le_rfl
      (by omega)

theorem parseAll_draws : ∀ (p : ParentCtx) (es : List ExprCtx) (b : ASTBuilder),
    Draws b.nextID (Expression.parseAll p es b).2.nextID
      (Expr.idsList (Expression.parseAll p es b).1)
  | _, [], _ => .nil le_rfl
  | p, e :: es, b => (parse_draws p e b).append (parseAll_draws p es _)

end

theorem parse_bitXor_not_mem_ids (p : ParentCtx) (ctx : Ctx) (es : List ExprCtx)
    (b : ASTBuilder) : b.nextID ∉ (Expression.parse p (.bitXor ctx es) b).1.ids := by
  have h := (parseAll_draws { p with expNode := some (b.nextID + 1) } es
    { b with nextID := b.nextID + 3 }).2.2
  rw [parse_bitXor]
  simp only [Expr.ids, SrcNode.ofCtx_id, List.mem_cons]
  rintro (h₁ | h₁ | h₁)
  · omega
  · omega
  · have := (h _ h₁).1; dsimp only at this; omega

/-- The ids a `^` fragment carries are distinct, and each is one of the ids handed out during its
parse after the one `NewBitXorOperationExpression` draws. -/
theorem bitXor_fragment_draws (p : ParentCtx) (ctx : Ctx) (es : List ExprCtx) (b : ASTBuilder) :
    Draws (b.nextID + 1) (Expression.parse p (.bitXor ctx es) b).2.nextID
      (Expression.parse p (.bitXor ctx es) b).1.ids := by
  rw [parse_bitXor]
  exact ((parseAll_draws _ es _).cons (n := b.nextID + 2) (by simp) (by simp)).cons le_rfl
    (by simp)

mutual

def Expr.xorCount : Expr → Nat
  | .bitXor ⟨_, _, _, es, _⟩ => Expr.xorCountList es + 1
  | .other .. => 0

def Expr.xorCountList : List Expr → Nat
  | [] => 0
  | e :: es => e.xorCount + Expr.xorCountList es

end

mutual

theorem parse_builder : ∀ (p : ParentCtx) (e : ExprCtx) (b : ASTBuilder),
    (Expression.parse p e b).2 =
      { b with
        nextID := b.nextID + (Expression.parse p e b).1.ids.length +
          (Expression.parse p e b).1.xorCount }
  | p, .bitXor ctx es, b => by
    rw [parse_bitXor]
    dsimp only [Expr.ids, Expr.xorCount]
    rw [parseAll_builder]
    simp only [List.length_cons, ASTBuilder.mk.injEq, and_true]
    omega
  | p, .other ctx t, b => by rw [parse_other]; rfl

theorem parseAll_builder : ∀ (p : ParentCtx) (es : List ExprCtx) (b : ASTBuilder),
    (Expression.parseAll p es b).2 =
      { b with
        nextID := b.nextID + (Expr.idsList (Expression.parseAll p es b).1).length +
          Expr.xorCountList (Expression.parseAll p es b).1 }
  | _, [], b => by simp [Expression.parseAll, Expr.idsList, Expr.xorCountList]
  | p, e :: es, b => by
    simp only [Expression.parseAll, Expr.idsList, Expr.xorCountList, List.length_append]
    rw [parseAll_builder p es, parse_builder p e b]
    simp only [ASTBuilder.mk.injEq, and_true]
    omega

end

/-! ## Parents -/

mutual

def Expr.parentsFrom (p : ParentCtx) : Expr → Bool
  | .bitXor ⟨id, _, src, es, _⟩ =>
    src.parentIndex == p.parentIndex && Expr.allParentsFrom { p with expNode := some id } es
  | .other _ src _ => src.parentIndex == p.parentIndex

def Expr.allParentsFrom (p : ParentCtx) : List Expr → Bool
  | [] => true
  | e :: es => e.parentsFrom p && Expr.allParentsFrom p es

end

mutual

def Expr.parentsLinked : Expr → Bool
  | .bitXor ⟨id, _, _, es, _⟩ => Expr.allLinkedTo id es
  | .other .. => true

def Expr.allLinkedTo (id : Nat) : List Expr → Bool
  | [] => true
  | e :: es => e.src.parentIndex == id && e.parentsLinked && Expr.allLinkedTo id es

end

theorem allParentsFrom_eq_all (p : ParentCtx) :
    ∀ es : List Expr, Expr.allParentsFrom p es = es.all (Expr.parentsFrom p)
  | [] => rfl
  | e :: es => by rw [Expr.allParentsFrom, allParentsFrom_eq_all p es, List.all_cons]

mutual

theorem parse_parentsFrom :
    ∀ (p : ParentCtx) (e : ExprCtx) (b : ASTBuilder), (Expression.parse p e b).1.parentsFrom p
  | p, .bitXor ctx es, b => by
    rw [parse_bitXor]
    simp only [Expr.parentsFrom, SrcNode.ofCtx, beq_self_eq_true, Bool.true_and,
      allParentsFrom_eq_all]
    exact parseAll_parentsFrom _ es _
  | p, .other ctx t, b => by simp [parse_other, Expr.parentsFrom, SrcNode.ofCtx]

theorem parseAll_parentsFrom :
    ∀ (p : ParentCtx) (es : List ExprCtx) (b : ASTBuilder),
      (Expression.parseAll p es b).1.all (Expr.parentsFrom p)
  | _, [], _ => rfl
  | p, e :: es, b => by
    simp only [Expression.parseAll, List.all_cons, parse_parentsFrom p e b, Bool.true_and]
    exact parseAll_parentsFrom p es _

end

theorem parentsFrom_src {p : ParentCtx} :
    ∀ {x : Expr}, x.parentsFrom p → x.src.parentIndex = p.parentIndex
  | .bitXor _, h => by simp_all [Expr.parentsFrom, Expr.src]
  | .other .., h => by simpa [Expr.parentsFrom, Expr.src] using h

mutual

theorem parentsFrom_linked :
    ∀ (p : ParentCtx) (x : Expr), p.vDeclar = none → x.parentsFrom p → x.parentsLinked
  | p, .bitXor ⟨id, _, src, es, _⟩, hv, h => by
    simp only [Expr.parentsFrom, Bool.and_eq_true] at h
    exact allParentsFrom_linked _ id es (by simpa using hv) h.2
  | _, .other .., _, _ => rfl

theorem allParentsFrom_linked :
    ∀ (p : ParentCtx) (id : Nat) (es : List Expr), p.vDeclar = none →
      Expr.allParentsFrom { p with expNode := some id } es → Expr.allLinkedTo id es
  | _, _, [], _, _ => rfl
  | p, id, e :: es, hv, h => by
    simp only [Expr.allParentsFrom, Bool.and_eq_true] at h
    have he : e.src.parentIndex = id := by simpa [hv] using parentsFrom_src h.1
    simp only [Expr.allLinkedTo, he, beq_self_eq_true, Bool.true_and, Bool.and_eq_true]
    exact ⟨parentsFrom_linked _ e (by simpa using hv) h.1, allParentsFrom_linked p id es hv h.2⟩

end

theorem parse_parentsLinked (p : ParentCtx) (e : ExprCtx) (b : ASTBuilder)
    (hv : p.vDeclar = none) : (Expression.parse p e b).1.parentsLinked :=
  parentsFrom_linked p _ hv (parse_parentsFrom p e b)

/-- In `uint x = a ^ b ^ c;` the declaration (id `7`) comes first for every node of the chain:
the inner `^` node and `c` get its id, not the id `21` of the `^` node holding them. -/
theorem xorChain_in_declaration :
    let c : String → Ctx := fun t => ⟨⟨1, 0, 0, 0⟩, ⟨1, 0, 0, 0⟩, t⟩
    let x := (Expression.parse ⟨some 7, none, some 5, some 4, 3⟩ (.bitXor (c "a ^ b ^ c")
      [.bitXor (c "a ^ b") [.other (c "a") none, .other (c "b") none], .other (c "c") none])
      ⟨20, []⟩).1
    x.id = 21 ∧ x.operands.map (·.src.parentIndex) = [7, 7] := by
  decide

/-! ## Types -/

mutual

def ExprCtx.leftmostType : ExprCtx → Option TypeDescription
  | .bitXor _ operands => ExprCtx.firstLeftmostType operands
  | .other _ typeDescription => typeDescription

def ExprCtx.firstLeftmostType : List ExprCtx → Option TypeDescription
  | [] => none
  | e :: _ => e.leftmostType

end

mutual

theorem parse_getTypeDescription : ∀ (p : ParentCtx) (e : ExprCtx) (b : ASTBuilder),
    (Expression.parse p e b).1.getTypeDescription = e.leftmostType
  | p, .bitXor ctx es, b => by
    rw [parse_bitXor, Expr.getTypeDescription, parseAll_typeDescriptions]
    cases es <;> rfl
  | p, .other ctx t, b => by rw [parse_other]; rfl

theorem parseAll_typeDescriptions : ∀ (p : ParentCtx) (es : List ExprCtx) (b : ASTBuilder),
    (Expression.parseAll p es b).1.map Expr.getTypeDescription = es.map ExprCtx.leftmostType
  | _, [], _ => rfl
  | p, e :: es, b => by
    rw [Expression.parseAll, List.map_cons, parse_getTypeDescription p e b,
      parseAll_typeDescriptions p es, List.map_cons]

end

/-- `Parse` records each operand's type in operand order, and `GetTypeDescription` reads the
first entry: a `^` node has its first operand's type, whatever the types of the others. -/
theorem bitXor_typeDescription_first (p : ParentCtx) (ctx : Ctx) (e : ExprCtx)
    (es : List ExprCtx) (b : ASTBuilder) :
    ∃ f, (Expression.parse p (.bitXor ctx (e :: es)) b).1 = .bitXor f ∧
      f.typeDescriptions = (e :: es).map ExprCtx.leftmostType ∧
      (Expression.parse p (.bitXor ctx (e :: es)) b).1.getTypeDescription = e.leftmostType := by
  have h := parse_getTypeDescription p (.bitXor ctx (e :: es)) b
  rw [parse_bitXor] at h ⊢
  exact ⟨_, rfl, parseAll_typeDescriptions _ _ _, h⟩

/-- `uint8 ^ uint256` gets the type `uint8`, not the wider `uint256`, and with the operands
swapped the node's type is `uint256`. -/
theorem bitXor_type_follows_order :
    let c : Ctx := ⟨⟨1, 0, 0, 0⟩, ⟨1, 0, 4, 4⟩, "a ^ b"⟩
    let u8 : Option TypeDescription := some ⟨"t_uint8", "uint8"⟩
    let u256 : Option TypeDescription := some ⟨"t_uint256", "uint256"⟩
    let p : ParentCtx := ⟨none, none, some 5, some 4, 3⟩
    (Expression.parse p (.bitXor c [.other c u8, .other c u256]) ⟨20, []⟩).1.getTypeDescription =
        u8 ∧
      (Expression.parse p (.bitXor c [.other c u256, .other c u8]) ⟨20, []⟩).1.getTypeDescription =
        u256 := by
  decide

end Solgo
