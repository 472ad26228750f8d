import Solgo.Ast.Contract
import Solgo.Ast.Enum
import Solgo.Ast.BitXor

/-!
# Parents, ids and lengths across the parsers

The three parsers of the source build their `Src` descriptors separately; here they are put
side by side, each over all of its inputs.
-/

namespace Solgo

/-- The contract's parent is the unit that lists it, the enum's the contract and each member's
the enum; every expression node gets the parent of the priority rule, and without a variable
declaration in context that is the `^` node holding it. -/
theorem fragment_parentIndex :
    (∀ (co : Collaborators) (ctx : ContractCtx) (rootNode : Nat) (unit : SourceUnit)
        (b : ASTBuilder),
      ∃ c, (Contract.parse co ctx rootNode unit b).1.contract = some c ∧
        UnitNode.contract c ∈ (Contract.parse co ctx rootNode unit b).1.nodes ∧
        c.src.parentIndex = (Contract.parse co ctx rootNode unit b).1.id) ∧
    (∀ (b : ASTBuilder) (unit : SourceUnit) (contractNode : Nat) (ctx : EnumCtx),
      let e := ((newEnumDefinition b).1.parse unit contractNode ctx (newEnumDefinition b).2).1
      e.src.parentIndex = contractNode ∧ e.members.all (·.src.parentIndex == e.id)) ∧
    (∀ (p : ParentCtx) (e : ExprCtx) (b : ASTBuilder),
      (Expression.parse p e b).1.parentsFrom p) ∧
    (∀ (p : ParentCtx) (e : ExprCtx) (b : ASTBuilder),
      (Expression.parse { p with vDeclar := none } e b).1.parentsLinked) := by
  refine ⟨fun co ctx rootNode unit b => ?_, fun b unit contractNode ctx => ⟨?_, ?_⟩,
    parse_parentsFrom, fun p e b => parse_parentsLinked _ e b rfl⟩
  · obtain ⟨c, hc, hm, hs⟩ := Contract.parse_contract_src co ctx rootNode unit b
    exact ⟨c, hc, hm, by simp [hs]⟩
  · rw [EnumDefinition.parse_src]; rfl
  · simp only [EnumDefinition.parse_id, newEnumDefinition_id]
    exact newEnum_members_all b unit contractNode ctx _ fun _ _ => by simp

/-- The contract's `Src` and each enum member's `Src` keep the zero value for `Id`, and the id
`NewBitXorOperationExpression` draws is handed out but kept by no node of the fragment. -/
theorem fragment_src_ids :
    (∀ (co : Collaborators) (ctx : ContractCtx) (rootNode : Nat) (unit : SourceUnit)
        (b : ASTBuilder),
      ∃ c, (Contract.parse co ctx rootNode unit b).1.contract = some c ∧ c.src.id = 0) ∧
    (∀ (b : ASTBuilder) (unit : SourceUnit) (contractNode : Nat) (ctx : EnumCtx),
      ((newEnumDefinition b).1.parse unit contractNode ctx (newEnumDefinition b).2).1.members.map
        (·.src.id) = List.replicate ctx.enumValues.length 0) ∧
    (∀ (p : ParentCtx) (ctx : Ctx) (es : List ExprCtx) (b : ASTBuilder),
      b.nextID ∉ (Expression.parse p (.bitXor ctx es) b).1.ids ∧
        b.nextID < (Expression.parse p (.bitXor ctx es) b).2.nextID) := by
  refine ⟨fun co ctx rootNode unit b => ?_, newEnum_member_src_ids, fun p ctx es b =>
    ⟨parse_bitXor_not_mem_ids p ctx es b, ?_⟩⟩
  · obtain ⟨c, hc, -, hs⟩ := Contract.parse_contract_src co ctx rootNode unit b
    exact ⟨c, hc, by simp [hs]⟩
  · have h := (parse_draws p (.bitXor ctx es) b).2.2 (b.nextID + 1)
    rw [parse_bitXor] at h ⊢
    dsimp only at h ⊢
    have := (h (by simp [Expr.ids])).2
    omega

/-- The unit's and the contract's `Src` and every `^` node's count the stop byte in `Length`;
the enum's and its members' do not. -/
theorem fragment_src_length :
    (∀ (co : Collaborators) (ctx : ContractCtx) (rootNode : Nat) (unit : SourceUnit)
        (b : ASTBuilder),
      let r := (Contract.parse co ctx rootNode unit b).1
      r.src.length = r.src.«end» - r.src.start + 1 ∧
        ∃ c, r.contract = some c ∧ c.src.length = c.src.«end» - c.src.start + 1) ∧
    (∀ (f : BitXorOperation Expr) (p : ParentCtx) (ctx : Ctx) (es : List ExprCtx)
        (b : ASTBuilder),
      let s := (f.parse p ctx es b).1.src
      s.length = s.«end» - s.start + 1) ∧
    (∀ (b : ASTBuilder) (unit : SourceUnit) (contractNode : Nat) (ctx : EnumCtx),
      let e := ((newEnumDefinition b).1.parse unit contractNode ctx (newEnumDefinition b).2).1
      e.src.length = e.src.«end» - e.src.start ∧
        e.members.all fun m => m.src.length == m.src.«end» - m.src.start) := by
  refine ⟨fun co ctx rootNode unit b => ⟨?_, ?_⟩, fun f p ctx es b => ?_,
    fun b unit contractNode ctx => ⟨?_, ?_⟩⟩
  · rw [Contract.parse_src]; rfl
  · obtain ⟨c, hc, -, hs⟩ := Contract.parse_contract_src co ctx rootNode unit b
    exact ⟨c, hc, by rw [hs]; rfl⟩
  · rw [bitXorParse_src]; rfl
  · rw [EnumDefinition.parse_src]; rfl
  · exact newEnum_members_all b unit contractNode ctx _ fun _ _ => by simp [SrcNode.ofEnumCtx]

end Solgo
