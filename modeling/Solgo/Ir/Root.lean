import Mathlib.Data.List.Nodup
import Solgo.Ast.Node

/-!
# The IR root and its contract types

`SetContractType` of `ir/root.go` adds a detected standard's contract types, each only if it is
not listed yet. `processRoot` starts the list empty and hands the root to the EIP pass, which
spec §4.3 says calls `SetContractType`.
-/

namespace Solgo

inductive Standard
  | eip20
  | eip721
  | eip1155
  | eip1967
  | eip1820
  | other (name : String)
  deriving DecidableEq, Repr

/-- The part of `RootSourceUnit` that the contract-type methods read and write. -/
structure RootSourceUnit where
  contractTypes : List String
  deriving DecidableEq, Repr

namespace RootSourceUnit

def hasContractType (r : RootSourceUnit) (ctype : String) : Bool :=
  r.contractTypes.any (· == ctype)

def appendContractType (r : RootSourceUnit) (contractType : String) : RootSourceUnit :=
  if !r.hasContractType contractType then
    { r with contractTypes := r.contractTypes ++ [contractType] }
  else r

def setContractType (r : RootSourceUnit) : Standard → RootSourceUnit
  | .eip20 => r.appendContractType "token"
  | .eip721 | .eip1155 => r.appendContractType "nft"
  | .eip1967 | .eip1820 => (r.appendContractType "proxy").appendContractType "upgradeable"
  | .other _ => r

end RootSourceUnit

def contractTypesOf : Standard → List String
  | .eip20 => ["token"]
  | .eip721 | .eip1155 => ["nft"]
  | .eip1967 | .eip1820 => ["proxy", "upgradeable"]
  | .other _ => []

def addNew (l : List String) (x : String) : List String := if x ∈ l then l else l ++ [x]

namespace RootSourceUnit

theorem hasContractType_iff (r : RootSourceUnit) (x : String) :
    r.hasContractType x = true ↔ x ∈ r.contractTypes := by
  simp [hasContractType]

theorem appendContractType_contractTypes (r : RootSourceUnit) (x : String) :
    (r.appendContractType x).contractTypes = addNew r.contractTypes x := by
  unfold appendContractType addNew
  by_cases hx : x ∈ r.contractTypes
  · rw [if_neg (by simp [(hasContractType_iff r x).mpr hx]), if_pos hx]
  · rw [if_pos (by simpa using mt (hasContractType_iff r x).mp hx), if_neg hx]

theorem setContractType_contractTypes (r : RootSourceUnit) (s : Standard) :
    (r.setContractType s).contractTypes = (contractTypesOf s).foldl addNew r.contractTypes := by
  cases s <;> simp [setContractType, contractTypesOf, appendContractType_contractTypes]

end RootSourceUnit

theorem foldl_setContractType (ss : List Standard) (r : RootSourceUnit) :
    (ss.foldl RootSourceUnit.setContractType r).contractTypes =
      (ss.flatMap contractTypesOf).foldl addNew r.contractTypes := by
  induction ss generalizing r with
  | nil => rfl
  | cons s ss ih =>
    rw [List.foldl_cons, ih, List.flatMap_cons, List.foldl_append,
      RootSourceUnit.setContractType_contractTypes]

theorem foldl_addNew (l : List String) :
    ∀ (xs acc : List String), xs.foldl addNew (l ++ acc) =
      l ++ List.eraseDups.loop (xs.filter (· ∉ l)) acc.reverse
  | [], acc => by simp [List.eraseDups.loop]
  | x :: xs, acc => by
    rw [List.foldl_cons]
    by_cases hl : x ∈ l
    · rw [addNew, if_pos (List.mem_append_left _ hl), List.filter_cons_of_neg (by simpa using hl),
        foldl_addNew l xs acc]
    · rw [List.filter_cons_of_pos (by simpa using hl), List.eraseDups.loop]
      by_cases ha : x ∈ acc
      · rw [addNew, if_pos (List.mem_append_right _ ha), foldl_addNew l xs acc,
          show List.elem x acc.reverse = true by simpa using ha]
      · rw [addNew, if_neg (by simp [hl, ha]), List.append_assoc, foldl_addNew l xs (acc ++ [x]),
          show List.elem x acc.reverse = false by simpa using ha]
        simp

theorem nodup_foldl_addNew :
    ∀ (xs : List String) {l : List String}, l.Nodup → (xs.foldl addNew l).Nodup
  | [], _, h => h
  | x :: xs, l, h => by
    rw [List.foldl_cons]
    refine nodup_foldl_addNew xs ?_
    unfold addNew
    split_ifs with hx
    · exact h
    · exact h.append (List.nodup_singleton x) (List.disjoint_singleton.mpr hx)

theorem setContractType_run (r : RootSourceUnit) (ss : List Standard)
    (h : r.contractTypes.Nodup) :
    (ss.foldl RootSourceUnit.setContractType r).contractTypes =
      r.contractTypes ++ ((ss.flatMap contractTypesOf).filter (· ∉ r.contractTypes)).eraseDups ∧
    (ss.foldl RootSourceUnit.setContractType r).contractTypes.Nodup := by
  rw [foldl_setContractType]
  refine ⟨?_, nodup_foldl_addNew _ h⟩
  simpa using foldl_addNew r.contractTypes (ss.flatMap contractTypesOf) []

theorem setContractType_run_empty :
    ([.eip721, .eip20, .eip1155, .eip1967, .eip1820].foldl RootSourceUnit.setContractType
      ⟨[]⟩).contractTypes = ["nft", "token", "proxy", "upgradeable"] :=
  (setContractType_run ⟨[]⟩ [.eip721, .eip20, .eip1155, .eip1967, .eip1820]
    List.nodup_nil).1.trans (by decide)

/-! ## The root of the IR -/

/-- What `processRoot` reads of the AST root. Its accessors are declared outside the source and
are read as the fields they name; `GetSourceUnitById` gives the first unit with the id, and
`nil` when there is none. -/
structure RootNode where
  nodeType : NodeType
  entrySourceUnit : Nat
  sourceUnits : List SourceUnit
  deriving DecidableEq, Repr

namespace RootNode

def getSourceUnitCount (root : RootNode) : Nat := root.sourceUnits.length

def hasSourceUnits (root : RootNode) : Bool := !root.sourceUnits.isEmpty

def getSourceUnitById (root : RootNode) (id : Nat) : Option SourceUnit :=
  root.sourceUnits.find? (·.id == id)

end RootNode

/-- All of Go's `RootSourceUnit`, the spec's `RootIR`: the contract types kept by the methods
above and the fields `processRoot` sets. IR contracts and EIPs are built outside the source. -/
structure RootIR (C E : Type) extends RootSourceUnit where
  unit : RootNode
  nodeType : NodeType
  entryContractId : Nat
  entryContractName : String
  contractsCount : BitVec 32
  contracts : List C
  eips : List E

def RootIR.init {C E : Type} (root : RootNode) : RootIR C E :=
  { unit := root, nodeType := root.nodeType,
    contractsCount := BitVec.ofNat 32 root.getSourceUnitCount, contracts := [],
    contractTypes := [], eips := [], entryContractId := 0, entryContractName := "" }

/-- Go's `processRoot`, with the builder's `processContract` and `processEips` as parameters;
`none` is the nil dereference when no unit has the entry id. -/
def processRoot {C E : Type} (processContract : SourceUnit → C)
    (processEips : RootIR C E → RootIR C E) (root : RootNode) : Option (RootIR C E) :=
  let rootNode : RootIR C E := .init root
  if !root.hasSourceUnits then some rootNode
  else
    match root.getSourceUnitById root.entrySourceUnit with
    | none => none
    | some entrySourceUnit =>
      let rootNode := { rootNode with
        entryContractId := entrySourceUnit.id, entryContractName := entrySourceUnit.name }
      let rootNode := root.sourceUnits.foldl
        (fun rootNode su => { rootNode with contracts := rootNode.contracts ++ [processContract su] })
        rootNode
      some (processEips rootNode)

section
variable {C E : Type} (pc : SourceUnit → C) (pe : RootIR C E → RootIR C E)

theorem foldl_processContract (us : List SourceUnit) (r : RootIR C E) :
    us.foldl (fun r su => { r with contracts := r.contracts ++ [pc su] }) r =
      { r with contracts := r.contracts ++ us.map pc } := by
  induction us generalizing r with
  | nil => simp
  | cons u us ih => simp [ih]

/-- `processRoot` returns early, with the record it starts from, when there are no source units.
Otherwise it hands `processEips` that record with the entry unit's id and name and one IR
contract per unit, in order: no contract types and no EIPs yet. -/
theorem processRoot_eq (root : RootNode) :
    processRoot pc pe root =
      if root.sourceUnits = [] then some (.init root)
      else (root.getSourceUnitById root.entrySourceUnit).map fun u =>
        pe { (RootIR.init root : RootIR C E) with
          entryContractId := u.id, entryContractName := u.name,
          contracts := root.sourceUnits.map pc } := by
  unfold processRoot
  by_cases hu : root.sourceUnits = []
  · simp [hu, RootNode.hasSourceUnits]
  · have hs : root.hasSourceUnits = true := by simpa [RootNode.hasSourceUnits] using hu
    simp only [hs, Bool.not_true, Bool.false_eq_true, if_false, if_neg hu]
    cases root.getSourceUnitById root.entrySourceUnit with
    | none => rfl
    | some u => simp [foldl_processContract, RootIR.init]

variable (detect : List C → List Standard)

/-- When `processEips` does what spec §4.3 says of it, calling `SetContractType` for each
standard it detects in the contracts, `processRoot` ends with the types of the detected
standards, each once, in the order first detected. -/
theorem processRoot_contractTypes
    (hE : ∀ r, (pe r).toRootSourceUnit =
      (detect r.contracts).foldl RootSourceUnit.setContractType r.toRootSourceUnit)
    {root : RootNode} {r : RootIR C E} (h : processRoot pc pe root = some r) :
    r.contractTypes = (if root.sourceUnits = [] then [] else
      ((detect (root.sourceUnits.map pc)).flatMap contractTypesOf).eraseDups) ∧
    r.contractTypes.Nodup := by
  rw [processRoot_eq] at h
  split_ifs at h with hu
  · cases h
    exact ⟨(if_pos hu).symm, List.nodup_nil⟩
  · obtain ⟨u, -, rfl⟩ := Option.map_eq_some'.mp h
    rw [hE, foldl_setContractType]
    refine ⟨?_, nodup_foldl_addNew _ List.nodup_nil⟩
    simpa [hu] using foldl_addNew [] ((detect (root.sourceUnits.map pc)).flatMap contractTypesOf) []

end

theorem processRoot_nft_token :
    let unit : SourceUnit := ⟨1, "A", "", {}, [], [], [], none⟩
    let detect : List Nat → List Standard := fun _ => [.eip721, .eip20, .eip1155]
    let pe : RootIR Nat Unit → RootIR Nat Unit := fun r =>
      { r with
        toRootSourceUnit := (detect r.contracts).foldl RootSourceUnit.setContractType
          r.toRootSourceUnit }
    (∀ r, (pe r).toRootSourceUnit =
      (detect r.contracts).foldl RootSourceUnit.setContractType r.toRootSourceUnit) ∧
    ∃ r, processRoot (·.id) pe ⟨.other "root", 1, [unit]⟩ = some r ∧
      r.contractTypes = ["nft", "token"] ∧ r.contractTypes.Nodup := by
  intro unit detect pe
  have h := @processRoot_contractTypes Nat Unit (·.id) pe detect (fun _ => rfl)
    ⟨.other "root", 1, [unit]⟩ _ rfl
  exact ⟨fun _ => rfl, _, rfl, h.1.trans rfl, h.2⟩

end Solgo
