import Solgo.Ast.Node
import Mathlib.Data.Nat.Digits

/-!
# Enum definitions

`NewEnumDefinition` and `EnumDefinition.Parse` draw ids for the enum, its `Src` and each member,
and end every type identifier in `_$` and the node's id in decimal, which can be read back.
-/

namespace Solgo

/-! ## The parser -/

structure EnumCtx where
  ctx : Ctx
  name : String
  enumValues : List Ctx
  deriving DecidableEq, Repr

def newEnumDefinition (b : ASTBuilder) : EnumDefinition × ASTBuilder :=
  let (id, b) := b.getNextID
  ({ sourceUnitName := "", id := id, nodeType := .enumDefinition, src := {}, name := "",
     canonicalName := "", typeDescription := none, members := [] }, b)

@[simp] theorem newEnumDefinition_id (b : ASTBuilder) : (newEnumDefinition b).1.id = b.nextID := rfl

@[simp] theorem newEnumDefinition_members (b : ASTBuilder) :
    (newEnumDefinition b).1.members = [] := rfl

@[simp] theorem newEnumDefinition_nextID (b : ASTBuilder) :
    (newEnumDefinition b).2.nextID = b.nextID + 1 := rfl

@[simp] theorem newEnumDefinition_currentEnums (b : ASTBuilder) :
    (newEnumDefinition b).2.currentEnums = b.currentEnums := rfl

namespace EnumDefinition

def member (e : EnumDefinition) (enumCtx : Ctx) (id : Nat) : Parameter where
  id := id
  src := .ofEnumCtx 0 enumCtx e.id
  name := enumCtx.text
  nodeType := .enumValue
  typeDescription := some
    { typeIdentifier := "t_enum_$_" ++ e.name ++ "$_" ++ enumCtx.text ++ "_$" ++ toString id
      typeString := "enum " ++ e.canonicalName ++ "." ++ enumCtx.text }

def parseEnumValues (e : EnumDefinition) : List Ctx → ASTBuilder → EnumDefinition × ASTBuilder
  | [], b => (e, b)
  | enumCtx :: enumCtxs, b =>
    let (id, b) := b.getNextID
    parseEnumValues { e with members := e.members ++ [e.member enumCtx id] } enumCtxs b

def parseHeader (e : EnumDefinition) (unit : SourceUnit) (contractNode : Nat) (ctx : EnumCtx)
    (srcId : Nat) : EnumDefinition :=
  let e := { e with
    src := .ofEnumCtx srcId ctx.ctx contractNode
    sourceUnitName := unit.name
    name := ctx.name }
  let e := { e with canonicalName := unit.name ++ "." ++ e.name }
  { e with
    typeDescription :=
      some { typeIdentifier := "t_enum_$_" ++ e.name ++ "_$" ++ toString e.id
             typeString := "enum " ++ e.canonicalName } }

def parse (e : EnumDefinition) (unit : SourceUnit) (contractNode : Nat) (ctx : EnumCtx)
    (b : ASTBuilder) : EnumDefinition × ASTBuilder :=
  let (srcId, b) := b.getNextID
  let (e, b) := (e.parseHeader unit contractNode ctx srcId).parseEnumValues ctx.enumValues b
  (e, { b with currentEnums := b.currentEnums ++ [e] })

@[simp] theorem parseHeader_src_eq (e : EnumDefinition) (unit : SourceUnit) (c : Nat)
    (ctx : EnumCtx) (i : Nat) : (e.parseHeader unit c ctx i).src = .ofEnumCtx i ctx.ctx c := rfl

@[simp] theorem parseHeader_id (e : EnumDefinition) (unit : SourceUnit) (c : Nat)
    (ctx : EnumCtx) (i : Nat) : (e.parseHeader unit c ctx i).id = e.id := rfl

theorem parseHeader_typeIdentifier (e : EnumDefinition) (unit : SourceUnit) (c : Nat)
    (ctx : EnumCtx) (i : Nat) :
    (e.parseHeader unit c ctx i).typeDescription.map (·.typeIdentifier) =
      some ("t_enum_$_" ++ ctx.name ++ "_$" ++ toString e.id) := rfl

@[simp] theorem parseHeader_members (e : EnumDefinition) (unit : SourceUnit) (c : Nat)
    (ctx : EnumCtx) (i : Nat) : (e.parseHeader unit c ctx i).members = e.members := rfl

@[simp] theorem member_id (e : EnumDefinition) (v : Ctx) (i : Nat) : (e.member v i).id = i := rfl

@[simp] theorem member_src (e : EnumDefinition) (v : Ctx) (i : Nat) :
    (e.member v i).src = .ofEnumCtx 0 v e.id := rfl

theorem member_typeIdentifier (e : EnumDefinition) (v : Ctx) (i : Nat) :
    (e.member v i).typeDescription.map (·.typeIdentifier) =
      some ("t_enum_$_" ++ e.name ++ "$_" ++ v.text ++ "_$" ++ toString i) := rfl

theorem parseEnumValues_spec (e : EnumDefinition) : ∀ (cs : List Ctx) (b : ASTBuilder),
    ∃ ms : List Parameter,
      e.parseEnumValues cs b =
        ({ e with members := e.members ++ ms }, { b with nextID := b.nextID + cs.length }) ∧
      ms.map Parameter.id = List.range' b.nextID cs.length ∧ ∀ m ∈ ms, ∃ c ∈ cs, m = e.member c m.id
  | [], b => ⟨[], by simp [parseEnumValues]⟩
  | c :: cs, b => by
    obtain ⟨ms, h, hid, hm⟩ := parseEnumValues_spec
      { e with members := e.members ++ [e.member c b.nextID] } cs { b with nextID := b.nextID + 1 }
    refine ⟨e.member c b.nextID :: ms, ?_, ?_, ?_⟩
    · rw [parseEnumValues]
      simp only [ASTBuilder.getNextID, h, List.append_assoc, List.singleton_append, List.length_cons,
        Nat.add_assoc, Nat.add_comm 1]
    · simpa [List.range'_succ, member] using hid
    · rintro m (_ | ⟨_, hm'⟩)
      · exact ⟨c, List.mem_cons_self c cs, rfl⟩
      · obtain ⟨c', hc', h'⟩ := hm m hm'
        exact ⟨c', List.mem_cons_of_mem c hc', h'⟩

@[simp] theorem parseEnumValues_id (e : EnumDefinition) :
    ∀ (cs : List Ctx) (b : ASTBuilder), (e.parseEnumValues cs b).1.id = e.id
  | [], _ => rfl
  | _ :: cs, _ => parseEnumValues_id _ cs _

@[simp] theorem parseEnumValues_src (e : EnumDefinition) :
    ∀ (cs : List Ctx) (b : ASTBuilder), (e.parseEnumValues cs b).1.src = e.src
  | [], _ => rfl
  | _ :: cs, _ => parseEnumValues_src _ cs _

@[simp] theorem parse_id (e : EnumDefinition) (unit : SourceUnit) (c : Nat) (ctx : EnumCtx)
    (b : ASTBuilder) : (e.parse unit c ctx b).1.id = e.id := by
  simp [parse]

theorem parse_src (e : EnumDefinition) (unit : SourceUnit) (c : Nat) (ctx : EnumCtx)
    (b : ASTBuilder) : (e.parse unit c ctx b).1.src = .ofEnumCtx b.nextID ctx.ctx c := by
  simp [parse]

theorem parse_spec (e : EnumDefinition) (unit : SourceUnit) (contractNode : Nat) (ctx : EnumCtx)
    (b : ASTBuilder) :
    ∃ ms : List Parameter,
      (e.parse unit contractNode ctx b).1 =
        { e.parseHeader unit contractNode ctx b.nextID with members := e.members ++ ms } ∧
      (e.parse unit contractNode ctx b).2.nextID = b.nextID + 1 + ctx.enumValues.length ∧
      ms.map Parameter.id = List.range' (b.nextID + 1) ctx.enumValues.length ∧
      ∀ m ∈ ms, ∃ v ∈ ctx.enumValues, m = (e.parseHeader unit contractNode ctx b.nextID).member v m.id := by
  obtain ⟨ms, h, hid, hm⟩ :=
    (e.parseHeader unit contractNode ctx b.nextID).parseEnumValues_spec ctx.enumValues
      { b with nextID := b.nextID + 1 }
  refine ⟨ms, ?_, ?_, hid, hm⟩ <;> simp only [parse, ASTBuilder.getNextID, h, parseHeader_members]

theorem parse_builder (e : EnumDefinition) (unit : SourceUnit) (contractNode : Nat)
    (ctx : EnumCtx) (b : ASTBuilder) :
    (e.parse unit contractNode ctx b).2 =
      { nextID := b.nextID + 1 + ctx.enumValues.length,
        currentEnums := b.currentEnums ++ [(e.parse unit contractNode ctx b).1] } := by
  obtain ⟨ms, h, -⟩ :=
    (e.parseHeader unit contractNode ctx b.nextID).parseEnumValues_spec ctx.enumValues
      { b with nextID := b.nextID + 1 }
  simp only [parse, ASTBuilder.getNextID, h]

end EnumDefinition

section NewEnum

variable (b : ASTBuilder) (unit : SourceUnit) (c : Nat) (ctx : EnumCtx)

theorem newEnum_members_all (P : Parameter → Bool)
    (h : ∀ v i, P (((newEnumDefinition b).1.parseHeader unit c ctx
      (newEnumDefinition b).2.nextID).member v i)) :
    ((newEnumDefinition b).1.parse unit c ctx (newEnumDefinition b).2).1.members.all P := by
  obtain ⟨ms, h₁, -, -, hm⟩ := (newEnumDefinition b).1.parse_spec unit c ctx (newEnumDefinition b).2
  rw [h₁, List.all_eq_true]
  intro m hm'
  obtain ⟨v, -, hv⟩ := hm m (by simpa using hm')
  exact hv ▸ h v m.id

theorem newEnum_member_src_ids :
    ((newEnumDefinition b).1.parse unit c ctx (newEnumDefinition b).2).1.members.map (·.src.id) =
      List.replicate ctx.enumValues.length 0 := by
  obtain ⟨ms, h₁, -, hid, hm⟩ :=
    (newEnumDefinition b).1.parse_spec unit c ctx (newEnumDefinition b).2
  rw [h₁, List.eq_replicate_iff]
  refine ⟨by simpa using congrArg List.length hid, fun i hi => ?_⟩
  obtain ⟨m, hm', rfl⟩ := List.mem_map.mp hi
  obtain ⟨v, -, hv⟩ := hm m (by simpa using hm')
  rw [hv]; rfl

end NewEnum

/-- The ids of a new enum, of its `Src` and of its members are all the ids handed out, in
order. -/
theorem newEnum_ids (b : ASTBuilder) (unit : SourceUnit) (c : Nat) (ctx : EnumCtx) :
    let r := (newEnumDefinition b).1.parse unit c ctx (newEnumDefinition b).2
    r.1.id :: r.1.src.id :: r.1.members.map (·.id) =
      List.range' b.nextID (ctx.enumValues.length + 2) ∧
    r.2.nextID = b.nextID + (ctx.enumValues.length + 2) := by
  obtain ⟨ms, h₁, h₂, hid, -⟩ :=
    (newEnumDefinition b).1.parse_spec unit c ctx (newEnumDefinition b).2
  intro r
  rw [h₁, h₂]
  simp only [newEnumDefinition_nextID] at hid
  refine ⟨?_, by simp only [newEnumDefinition_nextID]; omega⟩
  simp [hid, List.range'_succ, EnumDefinition.parseHeader_src_eq]

/-! ## Decimal ids in type identifiers -/

def decimalStep (n : Nat) (c : Char) : Nat := 10 * n + (c.toNat - '0'.toNat)

theorem digitChar_decimal : ∀ d, d < 10 → (Nat.digitChar d).toNat - '0'.toNat = d := by decide

theorem digitChar_ne_dollar : ∀ d, d < 10 → Nat.digitChar d ≠ '$' := by decide

theorem foldl_toDigitsCore : ∀ (fuel n : Nat) (ds : List Char), n < fuel →
    (Nat.toDigitsCore 10 fuel n ds).foldl decimalStep 0 = ds.foldl decimalStep n
  | 0, _, _, h => absurd h (Nat.not_lt_zero _)
  | fuel + 1, n, ds, h => by
    have hd := digitChar_decimal (n % 10) (Nat.mod_lt _ (by decide))
    rw [Nat.toDigitsCore]
    split
    · simp only [List.foldl_cons, decimalStep, hd]; congr 1; omega
    · rw [foldl_toDigitsCore fuel _ _ (by omega)]
      simp only [List.foldl_cons, decimalStep, hd]; congr 1; omega

theorem toDigits_injective {m n : Nat} (h : Nat.toDigits 10 m = Nat.toDigits 10 n) : m = n := by
  have hm := foldl_toDigitsCore (m + 1) m [] (Nat.lt_succ_self m)
  have hn := foldl_toDigitsCore (n + 1) n [] (Nat.lt_succ_self n)
  rw [List.foldl_nil] at hm hn
  unfold Nat.toDigits at h
  rw [← hm, ← hn, h]

theorem dollar_not_mem_toDigitsCore : ∀ (fuel n : Nat) (ds : List Char), '$' ∉ ds →
    '$' ∉ Nat.toDigitsCore 10 fuel n ds
  | 0, _, _, h => h
  | fuel + 1, n, ds, h => by
    have hd : '$' ∉ Nat.digitChar (n % 10) :: ds := by
      simp [h, Ne.symm (digitChar_ne_dollar _ (Nat.mod_lt n (by decide)))]
    rw [Nat.toDigitsCore]
    split
    · exact hd
    · exact dollar_not_mem_toDigitsCore fuel _ _ hd

def idDigits (s : String) : List Char := (s.data.reverse.takeWhile (· != '$')).reverse

theorem idDigits_id (pre : String) (n : Nat) :
    idDigits (pre ++ "_$" ++ toString n) = Nat.toDigits 10 n := by
  have h := dollar_not_mem_toDigitsCore (n + 1) n [] (List.not_mem_nil _)
  have hs : (pre ++ "_$" ++ toString n).data.reverse =
      (Nat.toDigits 10 n).reverse ++ '$' :: '_' :: pre.data.reverse := by
    simp [Nat.toDigits, toString, Nat.repr, List.asString]
  rw [idDigits, hs, List.takeWhile_append_of_pos, List.takeWhile_cons_of_neg (by simp),
    List.append_nil, List.reverse_reverse]
  intro c hc
  simp only [List.mem_reverse] at hc
  simpa using fun e : c = '$' => h (e ▸ hc)

def EnumDefinition.typedNodes (e : EnumDefinition) : List (Nat × Option String) :=
  (e.id, e.typeDescription.map (·.typeIdentifier)) ::
    e.members.map fun m => (m.id, m.typeDescription.map (·.typeIdentifier))

theorem typedNodes_idDigits (b : ASTBuilder) (unit : SourceUnit) (c : Nat) (ctx : EnumCtx) :
    ∀ x ∈ ((newEnumDefinition b).1.parse unit c ctx (newEnumDefinition b).2).1.typedNodes,
      x.2.map idDigits = some (Nat.toDigits 10 x.1) := by
  obtain ⟨ms, h, -, -, hm⟩ := (newEnumDefinition b).1.parse_spec unit c ctx (newEnumDefinition b).2
  rw [h]
  intro x hx
  rcases List.mem_cons.mp hx with rfl | hx
  · simp only [EnumDefinition.parseHeader_typeIdentifier, Option.map_some', idDigits_id]; rfl
  · obtain ⟨m, hm', rfl⟩ := List.mem_map.mp (by simpa using hx)
    obtain ⟨v, -, hv⟩ := hm m hm'
    rw [hv]
    simp only [EnumDefinition.member_typeIdentifier, EnumDefinition.member_id, Option.map_some',
      idDigits_id]

theorem enum_typeIdentifier_ne (b₁ b₂ : ASTBuilder) (u₁ u₂ : SourceUnit) (c₁ c₂ : Nat)
    (ctx₁ ctx₂ : EnumCtx) :
    ∀ x ∈ ((newEnumDefinition b₁).1.parse u₁ c₁ ctx₁ (newEnumDefinition b₁).2).1.typedNodes,
    ∀ y ∈ ((newEnumDefinition b₂).1.parse u₂ c₂ ctx₂ (newEnumDefinition b₂).2).1.typedNodes,
      x.1 ≠ y.1 → x.2 ≠ y.2 := by
  intro x hx y hy hne heq
  have h := (typedNodes_idDigits b₁ u₁ c₁ ctx₁ x hx).symm.trans
    (heq ▸ typedNodes_idDigits b₂ u₂ c₂ ctx₂ y hy)
  exact hne (toDigits_injective (Option.some.inj h))

/-- An enum named `E$_M` and the member `M` of an enum `E` share every character of their type
identifiers up to the id, and only the id tells them apart. -/
theorem enum_typeIdentifier_ne_imitation :
    let u : SourceUnit := ⟨0, "U", "", {}, [], [], [], none⟩
    let tok : Token := ⟨1, 0, 0, 0⟩
    let e : EnumCtx := ⟨⟨tok, tok, "enum E"⟩, "E", [⟨tok, tok, "M"⟩]⟩
    let em : EnumCtx := ⟨⟨tok, tok, "enum E$_M"⟩, "E$_M", []⟩
    (3, some "t_enum_$_E$_M_$3") ∈
        ((newEnumDefinition ⟨1, []⟩).1.parse u 0 e (newEnumDefinition ⟨1, []⟩).2).1.typedNodes ∧
      (4, some "t_enum_$_E$_M_$4") ∈
        ((newEnumDefinition ⟨4, []⟩).1.parse u 0 em (newEnumDefinition ⟨4, []⟩).2).1.typedNodes ∧
      some "t_enum_$_E$_M_$3" ≠ some "t_enum_$_E$_M_$4" := by
  intro u tok e em
  have h₁ : (3, some "t_enum_$_E$_M_$3") ∈
      ((newEnumDefinition ⟨1, []⟩).1.parse u 0 e (newEnumDefinition ⟨1, []⟩).2).1.typedNodes := by
    decide
  have h₂ : (4, some "t_enum_$_E$_M_$4") ∈
      ((newEnumDefinition ⟨4, []⟩).1.parse u 0 em (newEnumDefinition ⟨4, []⟩).2).1.typedNodes := by
    decide
  exact ⟨h₁, h₂, enum_typeIdentifier_ne _ _ u u 0 0 e em _ h₁ _ h₂ (by decide)⟩

end Solgo
