import Solgo.Regexp
import Mathlib.Data.List.DropRight

/-!
# Struct type names

`normalizeStructTypeName` and the lookups of defined names of `abis/helpers.go`. The normaliser
has two results, `tuple[]` for a struct name followed by one `[]` and `tuple` otherwise, and
`isStructType` looks a name up after trimming every trailing `[` and `]`.
-/

namespace Solgo

/-! ## Go's `strings` helpers -/

def trimRight (s cutset : List Char) : List Char := s.rdropWhile (· ∈ cutset)

def trimSuffix (s suffix : List Char) : List Char :=
  if suffix.isSuffixOf s then s.take (s.length - suffix.length) else s

theorem trimRight_append_of_all (s : List Char) {v cutset : List Char}
    (h : ∀ c ∈ v, c ∈ cutset) :
    trimRight (s ++ v) cutset = trimRight s cutset := by
  induction v using List.reverseRecOn with
  | nil => rw [List.append_nil]
  | append_singleton v x ih =>
    rw [trimRight, ← List.append_assoc,
      List.rdropWhile_concat_pos _ _ _ (by simpa using h x (by simp))]
    exact ih fun c hc => h c (by simp [hc])

theorem trimRight_of_getLast {s cutset : List Char} (h : ∀ c ∈ s.getLast?, c ∉ cutset) :
    trimRight s cutset = s :=
  List.rdropWhile_eq_self_iff.mpr fun hl => by
    simpa using h _ (List.getLast?_eq_getLast s hl)

/-! ## The code -/

def isStructType (definedStructs : List (List Char)) (typeName : List Char) : Bool :=
  trimRight typeName "[]".toList ∈ definedStructs

/-- The lookup that `isEnumType`, `isContractType`, `isInterfaceType` and `isLibraryType` make:
whether the name is a key of the map, seen through its keys. `isStructType` makes it on the
name with its trailing brackets trimmed. -/
def isDefinedType (defined : List (List Char)) (typeName : List Char) : Bool := typeName ∈ defined

def isEnumType (definedEnums : List (List Char)) (typeName : List Char) : Bool :=
  isDefinedType definedEnums typeName

def isContractType (definedContracts : List (List Char)) (typeName : List Char) : Bool :=
  isDefinedType definedContracts typeName

def isInterfaceType (definedInterfaces : List (List Char)) (typeName : List Char) : Bool :=
  isDefinedType definedInterfaces typeName

def isLibraryType (definedLibraries : List (List Char)) (typeName : List Char) : Bool :=
  isDefinedType definedLibraries typeName

theorem isDefinedType_iff (defined : List (List Char)) (typeName : List Char) :
    isDefinedType defined typeName = true ↔ typeName ∈ defined :=
  decide_eq_true_iff

/-- What `isStructType` does differently: brackets added at the end of a name do not change its
answer, and on a name that does not end in a bracket it is the shared lookup. -/
theorem isStructType_trim (definedStructs : List (List Char)) :
    (∀ s v : List Char, (∀ c ∈ v, c ∈ "[]".toList) →
      isStructType definedStructs (s ++ v) = isStructType definedStructs s) ∧
    (∀ t : List Char, (∀ c ∈ t.getLast?, c ∉ "[]".toList) →
      isStructType definedStructs t = isDefinedType definedStructs t) :=
  ⟨fun s _ hv => by rw [isStructType, isStructType, trimRight_append_of_all s hv],
    fun _ ht => by rw [isStructType, isDefinedType, trimRight_of_getLast ht]⟩

def normalizeStructTypeName (definedStructs : List (List Char)) (typeName : List Char) :
    List Char :=
  if "[]".toList.isSuffixOf typeName &&
      isStructType definedStructs (trimSuffix typeName "[]".toList) then "tuple[]".toList
  else "tuple".toList

theorem normalizeStructTypeName_append_slice (definedStructs : List (List Char)) (u : List Char) :
    normalizeStructTypeName definedStructs (u ++ "[]".toList) =
      if isStructType definedStructs u then "tuple[]".toList else "tuple".toList := by
  have hs : "[]".toList.isSuffixOf (u ++ "[]".toList) = true :=
    List.isSuffixOf_iff_suffix.mpr (List.suffix_append _ _)
  have ht : trimSuffix (u ++ "[]".toList) "[]".toList = u := by
    rw [trimSuffix, if_pos hs, List.length_append, Nat.add_sub_cancel, List.take_left]
  rw [normalizeStructTypeName, hs, ht, Bool.true_and]

theorem normalizeStructTypeName_of_not_suffix {definedStructs : List (List Char)}
    {t : List Char} (h : "[]".toList.isSuffixOf t = false) :
    normalizeStructTypeName definedStructs t = "tuple".toList := by
  rw [normalizeStructTypeName, h, Bool.false_and, if_neg Bool.false_ne_true]

theorem isSuffixOf_close {w : List Char} {d : Char} (hd : d ≠ '[') :
    "[]".toList.isSuffixOf (w ++ [d, ']']) = false := by
  simp [List.isSuffixOf, List.isPrefixOf, hd.symm]

/-! ## Struct names with dimensions -/

inductive Dim
  | slice
  | fixed (n : List Char)
  deriving DecidableEq, Repr

def Dim.text : Dim → List Char
  | .slice => "[]".toList
  | .fixed n => '[' :: n ++ [']']

def dimsText (ds : List Dim) : List Char := ds.flatMap Dim.text

def structAbiType (ds : List Dim) : List Char := "tuple".toList ++ dimsText ds

theorem dimsText_slices_mem (k : Nat) :
    ∀ c ∈ dimsText (List.replicate k .slice), c ∈ "[]".toList := by
  simp [dimsText, List.mem_flatMap, Dim.text]

theorem dimsText_slices_succ (k : Nat) :
    dimsText (List.replicate (k + 1) .slice) =
      dimsText (List.replicate k .slice) ++ "[]".toList := by
  simp [dimsText, List.replicate_succ', Dim.text]

theorem not_bracket_of_isDigit {c : Char} (h : isDigit c = true) : c ∉ "[]".toList := by
  intro hc
  simp only [String.toList, List.mem_cons, List.not_mem_nil, or_false] at hc
  rcases hc with rfl | rfl <;> exact absurd h (by decide)

section
variable {definedStructs : List (List Char)} {S : List Char} (hS : S ∈ definedStructs)
  (hb : ∀ c ∈ S.getLast?, c ∉ "[]".toList)
include hS hb

theorem isStructType_slices (k : Nat) :
    isStructType definedStructs (S ++ dimsText (List.replicate k .slice)) = true := by
  rw [isStructType, trimRight_append_of_all S (dimsText_slices_mem k), trimRight_of_getLast hb]
  exact decide_eq_true hS

/-- On a struct name followed by dimensions, `isStructType` holds for any number of `[]` and
`normalizeStructTypeName` answers `tuple[]` whatever that number is. After a fixed dimension
`[N]` the trimmed name keeps every dimension but the closing `]` of the last fixed one, so it
is a struct only if that text is a key, and a fixed dimension at the end gives `tuple`. -/
theorem normalizeStructTypeName_dims :
    normalizeStructTypeName definedStructs S = "tuple".toList ∧
    (∀ k, isStructType definedStructs (S ++ dimsText (List.replicate k .slice)) = true ∧
      normalizeStructTypeName definedStructs (S ++ dimsText (List.replicate (k + 1) .slice)) =
        "tuple[]".toList) ∧
    (∀ ds n k, n ≠ [] → (∀ c ∈ n, isDigit c = true) →
      isStructType definedStructs (S ++ dimsText (ds ++ .fixed n :: List.replicate k .slice)) =
        decide (S ++ dimsText ds ++ '[' :: n ∈ definedStructs) ∧
      normalizeStructTypeName definedStructs (S ++ dimsText (ds ++ [.fixed n])) =
        "tuple".toList) := by
  refine ⟨normalizeStructTypeName_of_not_suffix ?_, fun k => ⟨isStructType_slices hS hb k, ?_⟩,
    fun ds n k hn hd => ?_⟩
  · refine Bool.eq_false_iff.mpr fun h => ?_
    obtain ⟨u, rfl⟩ := List.isSuffixOf_iff_suffix.mp h
    exact hb ']' (by simp) (by simp)
  · rw [dimsText_slices_succ, ← List.append_assoc, normalizeStructTypeName_append_slice,
      isStructType_slices hS hb, if_pos rfl]
  · obtain ⟨n', d, rfl⟩ : ∃ n' d, n = n' ++ [d] :=
      ⟨n.dropLast, n.getLast hn, (List.dropLast_append_getLast hn).symm⟩
    have hd' := not_bracket_of_isDigit (hd d (by simp))
    have h₁ : S ++ dimsText (ds ++ .fixed (n' ++ [d]) :: List.replicate k .slice) =
        ((S ++ dimsText ds ++ '[' :: n') ++ [d]) ++ ']' :: dimsText (List.replicate k .slice) := by
      simp [dimsText, Dim.text]
    have h₂ : S ++ dimsText (ds ++ [.fixed (n' ++ [d])]) =
        (S ++ dimsText ds ++ '[' :: n') ++ [d, ']'] := by
      simp [dimsText, Dim.text]
    have hne : d ≠ '[' := by rintro rfl; exact hd' (by simp)
    refine ⟨?_, by rw [h₂]; exact normalizeStructTypeName_of_not_suffix (isSuffixOf_close hne)⟩
    rw [isStructType, h₁, trimRight_append_of_all _ (by
      simpa using fun c hc => dimsText_slices_mem k c hc), trimRight,
      List.rdropWhile_concat_neg _ _ _ (by simpa using hd')]
    simp

end

theorem normalizeStructTypeName_twoSlices :
    isStructType ["S".toList] "S[]".toList = true ∧
      normalizeStructTypeName ["S".toList] "S[][]".toList = "tuple[]".toList :=
  (@normalizeStructTypeName_dims ["S".toList] "S".toList (by simp) (by decide)).2.1 1

/-- `S[][]` gets `tuple[]` where its ABI type is `tuple[][]`; `S[3]` is no struct type for
`isStructType` and gets `tuple` where its ABI type is `tuple[3]`. -/
theorem structArray_dims_lost :
    normalizeStructTypeName ["S".toList] ("S".toList ++ dimsText [.slice, .slice]) ≠
        structAbiType [.slice, .slice] ∧
      isStructType ["S".toList] ("S".toList ++ dimsText [.fixed "3".toList]) = false ∧
      normalizeStructTypeName ["S".toList] ("S".toList ++ dimsText [.fixed "3".toList]) ≠
        structAbiType [.fixed "3".toList] := by
  decide

end Solgo
