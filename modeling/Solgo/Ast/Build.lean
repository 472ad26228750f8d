import Solgo.Ast.Enum
import Solgo.Ast.BitXor

/-!
# Parses sharing one builder

The parsers of the `ast` package share the builder's id counter and its list of enums. The
driver that calls them is outside the source, so here it makes any sequence of calls, and the
counter and the list are followed over the whole run.
-/

namespace Solgo

inductive ParseCall
  | enumDefinition (unit : SourceUnit) (contractNode : Nat) (ctx : EnumCtx)
  | expression (p : ParentCtx) (e : ExprCtx)

inductive Built
  | enumDefinition (e : EnumDefinition)
  | expression (x : Expr)

namespace Built

/-- The ids a node carries that come from the counter: an enum's id, its `Src` id and its
members' ids (each member's `Src` keeps the literal `0`), and every id of an expression
fragment. -/
def ids : Built → List Nat
  | .enumDefinition e => e.id :: e.src.id :: e.members.map (·.id)
  | .expression x => x.ids

def skipped : Built → Nat
  | .enumDefinition _ => 0
  | .expression x => x.xorCount

def enum? : Built → Option EnumDefinition
  | .enumDefinition e => some e
  | .expression _ => none

end Built

def ParseCall.run : ParseCall → ASTBuilder → Built × ASTBuilder
  | .enumDefinition unit contractNode ctx, b =>
    let (e, b) := newEnumDefinition b
    let (e, b) := e.parse unit contractNode ctx b
    (.enumDefinition e, b)
  | .expression p e, b =>
    let (x, b) := Expression.parse p e b
    (.expression x, b)

def runAll : List ParseCall → ASTBuilder → List Built × ASTBuilder
  | [], b => ([], b)
  | c :: cs, b =>
    let r := c.run b
    let rs := runAll cs r.2
    (r.1 :: rs.1, rs.2)

/-- One call draws the ids its node carries, moves the counter past them and its skipped ids,
and adds its enum, if any, to the list. -/
theorem ParseCall.run_builder (c : ParseCall) (b : ASTBuilder) :
    Draws b.nextID (c.run b).2.nextID (c.run b).1.ids ∧
    (c.run b).2 =
      { nextID := b.nextID + (c.run b).1.ids.length + (c.run b).1.skipped,
        currentEnums := b.currentEnums ++ (c.run b).1.enum?.toList } := by
  cases c with
  | enumDefinition unit contractNode ctx =>
    obtain ⟨ms, h₁, -, hid, -⟩ :=
      (newEnumDefinition b).1.parse_spec unit contractNode ctx (newEnumDefinition b).2
    have hb := (newEnumDefinition b).1.parse_builder unit contractNode ctx (newEnumDefinition b).2
    set r := (newEnumDefinition b).1.parse unit contractNode ctx (newEnumDefinition b).2
    simp only [newEnumDefinition_nextID, newEnumDefinition_currentEnums] at hid hb
    have hids : (Built.enumDefinition r.1).ids = List.range' b.nextID (ctx.enumValues.length + 2) := by
      simp [Built.ids, h₁, hid, List.range'_succ]
    have hrun : (ParseCall.enumDefinition unit contractNode ctx).run b = (.enumDefinition r.1, r.2) :=
      rfl
    rw [hrun, hids, hb]
    refine ⟨?_, by simp only [List.length_range', Built.skipped, Built.enum?, Option.toList_some,
      ASTBuilder.mk.injEq, and_true]; omega⟩
    have := Draws.range' b.nextID (ctx.enumValues.length + 2)
    rwa [show b.nextID + (ctx.enumValues.length + 2) = b.nextID + 1 + 1 + ctx.enumValues.length
      by omega] at this
  | expression p e =>
    refine ⟨parse_draws p e b, ?_⟩
    simp only [run, Built.ids, Built.skipped, Built.enum?, Option.toList_none, List.append_nil]
    exact parse_builder p e b

/-- Over any sequence of calls on one builder, every id the built nodes and their `Src`
descriptors carry is drawn once from the counter; the counter ends past those ids and one id for
each `^` node built; and the builder's enum list gains the enums built, in order. -/
theorem runAll_builder : ∀ (cs : List ParseCall) (b : ASTBuilder),
    Draws b.nextID (runAll cs b).2.nextID ((runAll cs b).1.flatMap Built.ids) ∧
    (runAll cs b).2.nextID =
      b.nextID + ((runAll cs b).1.flatMap Built.ids).length +
        ((runAll cs b).1.map Built.skipped).sum ∧
    (runAll cs b).2.currentEnums = b.currentEnums ++ (runAll cs b).1.filterMap Built.enum?
  | [], b => ⟨.nil le_rfl, by simp [runAll], by simp [runAll]⟩
  | c :: cs, b => by
    obtain ⟨hd, hb⟩ := c.run_builder b
    obtain ⟨hd', hn', he'⟩ := runAll_builder cs (c.run b).2
    refine ⟨?_, ?_, ?_⟩
    · exact hd.append hd'
    · have hn : (c.run b).2.nextID = b.nextID + (c.run b).1.ids.length + (c.run b).1.skipped := by
        rw [hb]
      simp only [runAll, List.flatMap_cons, List.map_cons, List.sum_cons, List.length_append, hn']
      omega
    · have hc : (c.run b).2.currentEnums = b.currentEnums ++ (c.run b).1.enum?.toList := by
        rw [hb]
      simp only [runAll, List.filterMap_cons, he', hc]
      cases (c.run b).1.enum? <;> simp

end Solgo
