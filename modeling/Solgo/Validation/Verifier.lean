import Mathlib.Data.List.Basic

/-!
# Bytecode verification

`NewVerifier` and `Verifier.Verify` of the `validation` package. `Verify` writes the given bytes
with Go's `hex.EncodeToString` and compares the text with the compiler's bytecode; the compiler,
the source preparation and the diff library are parameters.
-/

namespace Solgo

/-! ## Go's `hex.EncodeToString` -/

def hextable : List Char := "0123456789abcdef".toList

def hexPair (v : UInt8) : List Char :=
  [hextable.getD (v.toNat >>> 4) '0', hextable.getD (v.toNat &&& 0x0f) '0']

def encodeToString (src : List UInt8) : String := ⟨src.flatMap hexPair⟩

def lowerHexValue (c : Char) : Option Nat := (List.range 16).find? (hextable.getD · '0' == c)

/-- The bytes whose lowercase hex text is `s`, read two digits at a time; `none` when `s` is
not such a text. -/
def lowerHexBytes : List Char → Option (List UInt8)
  | h :: l :: rest => do
    let hi ← lowerHexValue h
    let lo ← lowerHexValue l
    let bs ← lowerHexBytes rest
    pure (UInt8.ofNat (16 * hi + lo) :: bs)
  | [] => some []
  | [_] => none

theorem lowerHexValue_getD : ∀ n < 16, lowerHexValue (hextable.getD n '0') = some n := by
  decide

theorem lowerHexValue_spec {c : Char} {n : Nat} (h : lowerHexValue c = some n) :
    n < 16 ∧ hextable.getD n '0' = c := by
  have hn := List.mem_of_find?_eq_some h
  refine ⟨List.mem_range.mp hn, ?_⟩
  simpa using List.find?_some h

theorem shiftRight_four (n : Nat) : n >>> 4 = n / 16 := Nat.shiftRight_eq_div_pow n 4

theorem and_fifteen (n : Nat) : n &&& 0x0f = n % 16 := Nat.and_pow_two_sub_one_eq_mod n 4

theorem byte_halves (v : UInt8) : 16 * (v.toNat >>> 4) + (v.toNat &&& 0x0f) = v.toNat := by
  rw [shiftRight_four, and_fifteen]
  omega

theorem halves_lt (v : UInt8) : v.toNat >>> 4 < 16 ∧ v.toNat &&& 0x0f < 16 := by
  have := byte_halves v
  have := v.toNat_lt_size
  simp only [UInt8.size] at this
  omega

theorem hexPair_ofNat {hi lo : Nat} (hh : hi < 16) (hl : lo < 16) :
    hexPair (UInt8.ofNat (16 * hi + lo)) = [hextable.getD hi '0', hextable.getD lo '0'] := by
  have hv : (UInt8.ofNat (16 * hi + lo)).toNat = 16 * hi + lo :=
    UInt8.toNat_ofNat_of_lt (by simp only [UInt8.size]; omega)
  have h₁ : (16 * hi + lo) >>> 4 = hi := by rw [shiftRight_four]; omega
  have h₂ : (16 * hi + lo) &&& 0x0f = lo := by rw [and_fifteen]; omega
  rw [hexPair, hv, h₁, h₂]

theorem lowerHexBytes_flatMap : ∀ bs : List UInt8, lowerHexBytes (bs.flatMap hexPair) = some bs
  | [] => rfl
  | v :: bs => by
    obtain ⟨hh, hl⟩ := halves_lt v
    have hv : UInt8.ofNat (16 * (v.toNat >>> 4) + (v.toNat &&& 0x0f)) = v :=
      UInt8.toNat.inj (by rw [UInt8.toNat_ofNat_of_lt (by rw [byte_halves]; exact v.toNat_lt_size),
        byte_halves])
    rw [List.flatMap_cons, hexPair, List.cons_append, List.cons_append, List.nil_append,
      lowerHexBytes, lowerHexValue_getD _ hh, lowerHexValue_getD _ hl, lowerHexBytes_flatMap bs]
    simp only [Option.bind_eq_bind, Option.some_bind, Option.pure_def, hv]

theorem flatMap_of_lowerHexBytes : ∀ {s : List Char} {bs : List UInt8},
    lowerHexBytes s = some bs → bs.flatMap hexPair = s
  | h :: l :: rest, bs, hs => by
    simp only [lowerHexBytes, Option.bind_eq_bind, Option.bind_eq_some, Option.pure_def,
      Option.some.injEq] at hs
    obtain ⟨hi, hhi, lo, hlo, bs', hbs', rfl⟩ := hs
    obtain ⟨hh, rfl⟩ := lowerHexValue_spec hhi
    obtain ⟨hl, rfl⟩ := lowerHexValue_spec hlo
    rw [List.flatMap_cons, hexPair_ofNat hh hl, flatMap_of_lowerHexBytes hbs']
    rfl
  | [], bs, hs => by cases hs; rfl
  | [_], _, hs => by cases hs

theorem encodeToString_eq_iff (bs : List UInt8) (s : String) :
    encodeToString bs = s ↔ lowerHexBytes s.data = some bs := by
  constructor
  · rintro rfl
    exact lowerHexBytes_flatMap bs
  · intro h
    rw [encodeToString, flatMap_of_lowerHexBytes h]

/-! ## The verifier -/

structure CompilerResults where
  bytecode : String
  deriving DecidableEq, Repr

structure DiffLib (Diff : Type) where
  diffMain : String → String → List Diff
  diffPrettyText : List Diff → String

structure VerifyResult (Diff : Type) where
  verified : Bool
  compilerResults : CompilerResults
  expectedBytecode : String
  diffs : List Diff
  diffPretty : String

/-- The calls `NewVerifier` makes outside the source: `ArePrepared` and `Prepare` of the sources,
and `solc.NewCompiler`. -/
structure VerifierEnv (Config Sources Compiler : Type) where
  arePrepared : Sources → Bool
  prepare : Sources → Except String Sources
  newCompiler : Config → Sources → Except String Compiler

structure Verifier (Config Sources Compiler : Type) where
  compiler : Compiler
  sources : Sources
  config : Config

def newVerifier {Config Sources Compiler : Type} (env : VerifierEnv Config Sources Compiler)
    (config : Option Config) (sources : Option Sources) :
    Except String (Verifier Config Sources Compiler) :=
  match config, sources with
  | none, _ => .error "config must be set"
  | some _, none => .error "sources must be set"
  | some config, some sources => do
    let sources ← if !env.arePrepared sources then env.prepare sources else pure sources
    let compiler ← env.newCompiler config sources
    pure { compiler := compiler, sources := sources, config := config }

/-- Go's `Verifier.Verify`, given what `Compile` returned: the result, when there is one, and
the error. -/
def Verifier.verify {Diff : Type} (compile : Except String CompilerResults) (dmp : DiffLib Diff)
    (bytecode : List UInt8) : Option (VerifyResult Diff) × Option String :=
  match compile with
  | .error err => (none, some err)
  | .ok results =>
    let encoded := encodeToString bytecode
    if encoded ≠ results.bytecode then
      let diffs := dmp.diffMain encoded results.bytecode
      (some { verified := false, compilerResults := results, expectedBytecode := encoded,
              diffs := diffs, diffPretty := dmp.diffPrettyText diffs },
        some "bytecode missmatch, failed to verify")
    else
      (some { verified := true, compilerResults := results, expectedBytecode := encoded,
              diffs := [], diffPretty := "" },
        none)

theorem verify_ok {Diff : Type} (results : CompilerResults) (dmp : DiffLib Diff)
    (bytecode : List UInt8) :
    ∃ r, (Verifier.verify (.ok results) dmp bytecode).1 = some r ∧
      r.expectedBytecode = encodeToString bytecode ∧ r.compilerResults = results ∧
      (r.verified = true ↔ encodeToString bytecode = results.bytecode) ∧
      ((Verifier.verify (.ok results) dmp bytecode).2 = none ↔ r.verified = true) := by
  by_cases h : encodeToString bytecode = results.bytecode <;> simp [Verifier.verify, h]

/-- `Verify` accepts exactly the bytes whose lowercase hex text the compiler returned: for one
compilation at most one byte string is verified, and none when the compiler's text is not an
even-length lowercase hex text. An error is returned exactly when the bytes are not verified. -/
theorem verify_verified {Diff : Type} (compile : Except String CompilerResults)
    (dmp : DiffLib Diff) :
    (∀ bytecode, (∃ r, (Verifier.verify compile dmp bytecode).1 = some r ∧ r.verified = true) ↔
      ∃ results, compile = .ok results ∧ lowerHexBytes results.bytecode.data = some bytecode) ∧
    (∀ bytecode, (Verifier.verify compile dmp bytecode).2 = none ↔
      ∃ r, (Verifier.verify compile dmp bytecode).1 = some r ∧ r.verified = true) ∧
    (∀ b₁ b₂, (∃ r, (Verifier.verify compile dmp b₁).1 = some r ∧ r.verified = true) →
      (∃ r, (Verifier.verify compile dmp b₂).1 = some r ∧ r.verified = true) → b₁ = b₂) := by
  have key : ∀ bytecode,
      (∃ r, (Verifier.verify compile dmp bytecode).1 = some r ∧ r.verified = true) ↔
        ∃ results, compile = .ok results ∧ lowerHexBytes results.bytecode.data = some bytecode := by
    intro bytecode
    cases compile with
    | error err => simp [Verifier.verify]
    | ok results =>
      obtain ⟨r, hr, -, -, hv, -⟩ := verify_ok results dmp bytecode
      simp only [hr, Option.some.injEq, exists_eq_left', hv, encodeToString_eq_iff,
        Except.ok.injEq, exists_eq_left']
  refine ⟨key, fun bytecode => ?_, fun b₁ b₂ h₁ h₂ => ?_⟩
  · cases compile with
    | error err => simp [Verifier.verify]
    | ok results =>
      obtain ⟨r, hr, -, -, -, he⟩ := verify_ok results dmp bytecode
      simp only [he, hr, Option.some.injEq, exists_eq_left']
  · obtain ⟨res₁, hc₁, hb₁⟩ := (key b₁).mp h₁
    obtain ⟨res₂, hc₂, hb₂⟩ := (key b₂).mp h₂
    cases hc₁.symm.trans hc₂
    exact Option.some.inj (hb₁.symm.trans hb₂)

end Solgo
