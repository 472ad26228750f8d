import Solgo.Ast.Node

/-!
# Contract definitions

`Contract.Parse` gives the source unit its `Src`, path and exported symbol, appends the nodes
that parsers outside the source build, and then builds the contract node: its bases, its
linearization and, element by element, its body.
-/

namespace Solgo

/-! ## Contexts and collaborators -/

structure BodyElementCtx where
  ctx : Ctx
  isEmpty : Bool
  deriving DecidableEq, Repr

structure ContractCtx where
  ctx : Ctx
  identifier : String
  inheritanceSpecifierList : List Ctx
  contractBodyElements : List BodyElementCtx
  deriving DecidableEq, Repr

/-- The functions `Contract.Parse` calls that are declared outside the source, in the order of
the fields: `SetAbsolutePathFromSources`, `parsePragmasForSourceUnit`,
`parseImportPathsForSourceUnit`, `parseInheritanceFromCtx`, and a fresh `NewBodyNode` with its
`ParseDefinitions` (the child node, if any, and the body node as the call leaves it). Each takes
the builder it may draw ids from; the unit context they also receive is fixed here. -/
structure Collaborators where
  absolutePath : SourceUnit → String
  parsePragmas : SourceUnit → ContractCtx → ASTBuilder → List NodeRef × ASTBuilder
  parseImportPaths : SourceUnit → ContractCtx → ASTBuilder → List NodeRef × ASTBuilder
  parseInheritance : SourceUnit → Contract → List Ctx → ASTBuilder →
    List BaseContract × ASTBuilder
  parseDefinitions : SourceUnit → Contract → BodyElementCtx → ASTBuilder →
    Option NodeRef × BodyNode × ASTBuilder

/-! ## The parser -/

namespace Contract

variable (co : Collaborators)

def parseUnit (ctx : ContractCtx) (rootNode : Nat) (unit : SourceUnit) (b : ASTBuilder) :
    SourceUnit × List NodeRef × ASTBuilder :=
  let (srcId, b) := b.getNextID
  let unit := { unit with src := .ofCtx srcId ctx.ctx rootNode }
  let unit := { unit with absolutePath := co.absolutePath unit }
  let unit := { unit with
    exportedSymbols := unit.exportedSymbols ++ [⟨unit.id, unit.name, unit.absolutePath⟩] }
  let (pragmas, b) := co.parsePragmas unit ctx b
  let unit := { unit with nodes := unit.nodes ++ pragmas.map .other }
  let (nodeImports, b) := co.parseImportPaths unit ctx b
  let unit := { unit with nodes := unit.nodes ++ nodeImports.map .other }
  (unit, nodeImports, b)

def addImport (contractNode : Contract) (nodeImport : NodeRef) : Contract :=
  { contractNode with
    linearizedBaseContracts := contractNode.linearizedBaseContracts ++ [nodeImport.id]
    contractDependencies := contractNode.contractDependencies ++ [nodeImport.id] }

def parseNode (ctx : ContractCtx) (unit : SourceUnit) (nodeImports : List NodeRef)
    (b : ASTBuilder) : SourceUnit × Contract × ASTBuilder :=
  let (id, b) := b.getNextID
  let contractNode : Contract :=
    { id := id, name := ctx.identifier, src := .ofCtx 0 ctx.ctx unit.id, abstract := false,
      nodeType := .contractDefinition, kind := .kindContract, linearizedBaseContracts := [],
      contractDependencies := [], baseContracts := [], nodes := [], fullyImplemented := true }
  let (bases, b) := co.parseInheritance unit contractNode ctx.inheritanceSpecifierList b
  let contractNode := { contractNode with baseContracts := contractNode.baseContracts ++ bases }
  let unit := { unit with baseContracts := contractNode.baseContracts }
  let contractNode := { contractNode with
    linearizedBaseContracts := contractNode.linearizedBaseContracts ++ [contractNode.id] }
  (unit, nodeImports.foldl addImport contractNode, b)

def parseBodyElement (unit : SourceUnit) (bodyElement : BodyElementCtx)
    (contractNode : Contract) (b : ASTBuilder) : Contract × ASTBuilder :=
  if bodyElement.isEmpty then ({ contractNode with fullyImplemented := false }, b)
  else
    match co.parseDefinitions unit contractNode bodyElement b with
    | (some childNode, bodyNode, b) =>
      let contractNode := { contractNode with nodes := contractNode.nodes ++ [childNode] }
      if bodyNode.nodeType = .functionDefinition then
        if !bodyNode.implemented then ({ contractNode with fullyImplemented := false }, b)
        else (contractNode, b)
      else (contractNode, b)
    | (none, _, b) => ({ contractNode with fullyImplemented := false }, b)

def parse (ctx : ContractCtx) (rootNode : Nat) (unit : SourceUnit) (b : ASTBuilder) :
    SourceUnit × ASTBuilder :=
  let (unit, nodeImports, b) := parseUnit co ctx rootNode unit b
  let (unit, contractNode, b) := parseNode co ctx unit nodeImports b
  let (contractNode, b) := ctx.contractBodyElements.foldl
    (fun s bodyElement => parseBodyElement co unit bodyElement s.1 s.2) (contractNode, b)
  ({ unit with nodes := unit.nodes ++ [.contract contractNode], contract := some contractNode },
    b)

/-! ## The contract node -/

theorem foldl_addImport :
    ∀ (is : List NodeRef) (c : Contract), is.foldl addImport c =
      { c with linearizedBaseContracts := c.linearizedBaseContracts ++ is.map NodeRef.id
               contractDependencies := c.contractDependencies ++ is.map NodeRef.id }
  | [], c => by simp
  | i :: is, c => by simp [foldl_addImport is, addImport]

theorem parseNode_contract (ctx : ContractCtx) (unit : SourceUnit) (is : List NodeRef)
    (b : ASTBuilder) :
    (parseNode co ctx unit is b).2.1 =
      { id := b.nextID, name := ctx.identifier, src := .ofCtx 0 ctx.ctx unit.id,
        abstract := false, nodeType := .contractDefinition, kind := .kindContract,
        linearizedBaseContracts := b.nextID :: is.map NodeRef.id,
        contractDependencies := is.map NodeRef.id,
        baseContracts := (co.parseInheritance unit
          { id := b.nextID, name := ctx.identifier, src := .ofCtx 0 ctx.ctx unit.id,
            abstract := false, nodeType := .contractDefinition, kind := .kindContract,
            linearizedBaseContracts := [], contractDependencies := [], baseContracts := [],
            nodes := [], fullyImplemented := true }
          ctx.inheritanceSpecifierList b.getNextID.2).1,
        nodes := [], fullyImplemented := true } := by
  simp [parseNode, foldl_addImport]

@[simp] theorem parseNode_id (ctx : ContractCtx) (unit : SourceUnit) (is : List NodeRef)
    (b : ASTBuilder) : (parseNode co ctx unit is b).1.id = unit.id := rfl

@[simp] theorem parseUnit_id (ctx : ContractCtx) (rootNode : Nat) (unit : SourceUnit)
    (b : ASTBuilder) : (parseUnit co ctx rootNode unit b).1.id = unit.id := rfl

/-! ## The body loop -/

theorem parseBodyElement_frame (unit : SourceUnit) (el : BodyElementCtx) (c : Contract)
    (b : ASTBuilder) : ∃ ns fi, (parseBodyElement co unit el c b).1 =
      { c with nodes := c.nodes ++ ns, fullyImplemented := fi } := by
  unfold parseBodyElement
  split
  · exact ⟨[], false, by simp⟩
  · split
    · split_ifs
      · exact ⟨[_], false, rfl⟩
      · exact ⟨[_], c.fullyImplemented, rfl⟩
      · exact ⟨[_], c.fullyImplemented, rfl⟩
    · exact ⟨[], false, by simp⟩

theorem foldl_parseBodyElement_frame (unit : SourceUnit) :
    ∀ (els : List BodyElementCtx) (c : Contract) (b : ASTBuilder), ∃ ns fi,
      (els.foldl (fun s el => parseBodyElement co unit el s.1 s.2) (c, b)).1 =
        { c with nodes := c.nodes ++ ns, fullyImplemented := fi }
  | [], c, b => ⟨[], c.fullyImplemented, by simp⟩
  | el :: els, c, b => by
    obtain ⟨ns, fi, h⟩ := parseBodyElement_frame co unit el c b
    obtain ⟨ns', fi', h'⟩ := foldl_parseBodyElement_frame unit els _
      (parseBodyElement co unit el c b).2
    refine ⟨ns ++ ns', fi', ?_⟩
    rw [List.foldl_cons, ← Prod.mk.eta (p := parseBodyElement co unit el c b), h', h]
    simp

inductive BodyOk (unit : SourceUnit) : List BodyElementCtx → Contract → ASTBuilder → Prop
  | nil (c : Contract) (b : ASTBuilder) : BodyOk unit [] c b
  | cons {el : BodyElementCtx} {els : List BodyElementCtx} {c : Contract} {b b' : ASTBuilder}
      {n : NodeRef} {bn : BodyNode} : el.isEmpty = false →
      co.parseDefinitions unit c el b = (some n, bn, b') →
      (bn.nodeType = .functionDefinition → bn.implemented = true) →
      BodyOk unit els { c with nodes := c.nodes ++ [n] } b' → BodyOk unit (el :: els) c b

section BodyElement

variable {co} {unit : SourceUnit} {el : BodyElementCtx} {c : Contract} {b : ASTBuilder}

theorem parseBodyElement_of_ok {n : NodeRef} {bn : BodyNode} {b' : ASTBuilder}
    (he : el.isEmpty = false) (hd : co.parseDefinitions unit c el b = (some n, bn, b'))
    (hi : bn.nodeType = .functionDefinition → bn.implemented = true) :
    parseBodyElement co unit el c b = ({ c with nodes := c.nodes ++ [n] }, b') := by
  unfold parseBodyElement
  simp only [he, hd, Bool.false_eq_true, if_false]
  split_ifs with h₁ h₂
  · simp [hi h₁] at h₂
  · rfl
  · rfl

theorem ok_of_parseBodyElement (h : (parseBodyElement co unit el c b).1.fullyImplemented = true) :
    c.fullyImplemented = true ∧ el.isEmpty = false ∧ ∃ n bn b',
      co.parseDefinitions unit c el b = (some n, bn, b') ∧
      (bn.nodeType = .functionDefinition → bn.implemented = true) := by
  unfold parseBodyElement at h
  split at h
  · simp at h
  · rename_i he
    split at h
    · rename_i n bn b' hd
      split_ifs at h with h₁ h₂
      · exact ⟨h, by simpa using he, n, bn, b', hd, fun _ => by simpa using h₂⟩
      · exact ⟨h, by simpa using he, n, bn, b', hd, fun h' => absurd h' h₁⟩
    · simp at h

end BodyElement

theorem foldl_fullyImplemented (unit : SourceUnit) :
    ∀ (els : List BodyElementCtx) (c : Contract) (b : ASTBuilder),
      (els.foldl (fun s el => parseBodyElement co unit el s.1 s.2) (c, b)).1.fullyImplemented
        = true ↔ c.fullyImplemented = true ∧ BodyOk co unit els c b
  | [], c, b => by simp [BodyOk.nil]
  | el :: els, c, b => by
    rw [List.foldl_cons, foldl_fullyImplemented unit els]
    constructor
    · rintro ⟨h₁, h₂⟩
      obtain ⟨hc, he, n, bn, b', hd, hi⟩ := ok_of_parseBodyElement h₁
      rw [parseBodyElement_of_ok he hd hi] at h₂
      exact ⟨hc, .cons he hd hi h₂⟩
    · rintro ⟨hc, hb⟩
      cases hb with
      | cons he hd hi h₂ => rw [parseBodyElement_of_ok he hd hi]; exact ⟨hc, h₂⟩

/-! ## Results -/

theorem parse_eq (ctx : ContractCtx) (rootNode : Nat) (unit : SourceUnit) (b : ASTBuilder) :
    parse co ctx rootNode unit b =
      let u := parseUnit co ctx rootNode unit b
      let n := parseNode co ctx u.1 u.2.1 u.2.2
      let r := ctx.contractBodyElements.foldl
        (fun s el => parseBodyElement co n.1 el s.1 s.2) (n.2.1, n.2.2)
      ({ n.1 with nodes := n.1.nodes ++ [.contract r.1], contract := some r.1 }, r.2) := rfl

@[simp] theorem parse_id (ctx : ContractCtx) (rootNode : Nat) (unit : SourceUnit)
    (b : ASTBuilder) : (parse co ctx rootNode unit b).1.id = unit.id := rfl

theorem parse_src (ctx : ContractCtx) (rootNode : Nat) (unit : SourceUnit) (b : ASTBuilder) :
    (parse co ctx rootNode unit b).1.src = .ofCtx b.nextID ctx.ctx rootNode := rfl

theorem parse_contract (ctx : ContractCtx) (rootNode : Nat) (unit : SourceUnit) (b : ASTBuilder) :
    let u := parseUnit co ctx rootNode unit b
    let n := parseNode co ctx u.1 u.2.1 u.2.2
    ∃ c ns fi, (parse co ctx rootNode unit b).1.contract = some c ∧
      UnitNode.contract c ∈ (parse co ctx rootNode unit b).1.nodes ∧
      c = { n.2.1 with nodes := n.2.1.nodes ++ ns, fullyImplemented := fi } := by
  intro u n
  obtain ⟨ns, fi, h⟩ := foldl_parseBodyElement_frame co n.1 ctx.contractBodyElements n.2.1 n.2.2
  rw [parse_eq]
  exact ⟨_, ns, fi, rfl, List.mem_append_right _ (List.mem_singleton_self _), h⟩

theorem parse_contract_src (ctx : ContractCtx) (rootNode : Nat) (unit : SourceUnit)
    (b : ASTBuilder) :
    ∃ c, (parse co ctx rootNode unit b).1.contract = some c ∧
      UnitNode.contract c ∈ (parse co ctx rootNode unit b).1.nodes ∧
      c.src = .ofCtx 0 ctx.ctx unit.id := by
  obtain ⟨c, ns, fi, hc, hm, rfl⟩ := parse_contract co ctx rootNode unit b
  exact ⟨_, hc, hm, by simp [parseNode_contract]⟩

theorem parse_linearizedBaseContracts (ctx : ContractCtx) (rootNode : Nat) (unit : SourceUnit)
    (b : ASTBuilder) :
    ∃ c, (parse co ctx rootNode unit b).1.contract = some c ∧
      c.linearizedBaseContracts = c.id :: (parseUnit co ctx rootNode unit b).2.1.map NodeRef.id ∧
      c.contractDependencies = (parseUnit co ctx rootNode unit b).2.1.map NodeRef.id := by
  obtain ⟨c, ns, fi, hc, -, rfl⟩ := parse_contract co ctx rootNode unit b
  exact ⟨_, hc, by simp [parseNode_contract]⟩

/-- For `contract B is A {}` in a unit that imports `A.sol`, where `A` has id `3`: the list holds
`B`'s id and the import's, not `A`'s. -/
theorem linearized_import_not_base :
    let tok : Token := ⟨1, 0, 0, 0⟩
    let co : Collaborators :=
      { absolutePath := fun _ => "B.sol"
        parsePragmas := fun _ _ b => ([], b)
        parseImportPaths := fun _ _ b => ([⟨b.nextID⟩], { b with nextID := b.nextID + 1 })
        parseInheritance := fun _ _ _ b => ([⟨b.nextID, "A", 3⟩], { b with nextID := b.nextID + 1 })
        parseDefinitions := fun _ _ _ b => (none, ⟨.other "", false⟩, b) }
    let ctx : ContractCtx := ⟨⟨tok, tok, "contract B is A {}"⟩, "B", [⟨tok, tok, "A"⟩], []⟩
    (parse co ctx 0 ⟨9, "B", "", {}, [], [], [], none⟩ ⟨10, []⟩).1.contract.map
      (fun c => (c.linearizedBaseContracts, c.baseContracts.map (·.referencedDeclaration))) =
      some ([12, 11], [3]) := by
  decide

theorem parse_fullyImplemented (ctx : ContractCtx) (rootNode : Nat) (unit : SourceUnit)
    (b : ASTBuilder) :
    let u := parseUnit co ctx rootNode unit b
    let n := parseNode co ctx u.1 u.2.1 u.2.2
    ∃ c, (parse co ctx rootNode unit b).1.contract = some c ∧
      (c.fullyImplemented = true ↔ BodyOk co n.1 ctx.contractBodyElements n.2.1 n.2.2) := by
  have hn (u : SourceUnit) (is : List NodeRef) (b : ASTBuilder) :
      (parseNode co ctx u is b).2.1.fullyImplemented = true := by
    rw [parseNode_contract]
  exact ⟨_, rfl, (foldl_fullyImplemented co _ _ _ _).trans (and_iff_right (hn _ _ _))⟩

/-- Bases and modifiers are not consulted: `A` declares a function without a body and is not
fully implemented, while `B is A {}` and `M`, whose only member is a modifier without a body,
are. -/
theorem fullyImplemented_abstract_base_modifier :
    let tok : Token := ⟨1, 0, 0, 0⟩
    let co : Collaborators :=
      { absolutePath := fun _ => ""
        parsePragmas := fun _ _ b => ([], b)
        parseImportPaths := fun _ _ b => ([], b)
        parseInheritance := fun _ _ specs b =>
          (specs.map fun s => ⟨b.nextID, s.text, 2⟩, { b with nextID := b.nextID + specs.length })
        parseDefinitions := fun _ _ el b =>
          (some ⟨b.nextID⟩,
            ⟨if el.ctx.text = "function f() public virtual;" then .functionDefinition
              else .modifierDefinition, false⟩,
            { b with nextID := b.nextID + 1 }) }
    let unit : String → SourceUnit := fun name => ⟨0, name, "", {}, [], [], [], none⟩
    let contract : String → List String → List String → ContractCtx := fun name bases body =>
      ⟨⟨tok, tok, ""⟩, name, bases.map fun t => ⟨tok, tok, t⟩,
        body.map fun t => ⟨⟨tok, tok, t⟩, false⟩⟩
    (parse co (contract "A" [] ["function f() public virtual;"]) 0 (unit "A") ⟨1, []⟩).1.contract.map
        (fun c => (c.id, c.fullyImplemented)) = some (2, false) ∧
    (parse co (contract "B" ["A"] []) 0 (unit "B") ⟨4, []⟩).1.contract.map
        (fun c => (c.baseContracts.map (·.referencedDeclaration), c.fullyImplemented)) =
      some ([2], true) ∧
    (parse co (contract "M" [] ["modifier m() virtual;"]) 0 (unit "M") ⟨7, []⟩).1.contract.map
        (·.fullyImplemented) = some true := by
  decide

end Contract

end Solgo
