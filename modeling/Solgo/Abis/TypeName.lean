import Solgo.Regexp

/-!
# Canonical type names

`normalizeTypeName` of `abis/helpers.go` and its hand-copied variant with a status flag, with
`none` for a run-time panic. The array arm looks for `\[\d+\]` anywhere in the name and slices
between the first `[` and the first `]`; on names in prefix form this is the spec's normaliser.
-/

namespace Solgo

def arrayPattern : List Item := [.char '[', .rep isDigit 1, .char ']']

def elementaryArm (typeName : List Char) : Option (List Char) :=
  if "uint".toList.isPrefixOf typeName then
    some (if typeName = "uint".toList then "uint256".toList else typeName)
  else if "int".toList.isPrefixOf typeName then
    some (if typeName = "int".toList then "int256".toList else typeName)
  else if "bool".toList.isPrefixOf typeName then some typeName
  else if "bytes".toList.isPrefixOf typeName then some typeName
  else if typeName = "string".toList then some "string".toList
  else if typeName = "address".toList then some "address".toList
  else if typeName = "addresspayable".toList then some "address".toList
  else if typeName = "tuple".toList then some "tuple".toList
  else none

theorem length_lt_of_isPrefixOf {t : List Char} (h : "[]".toList.isPrefixOf t = true) :
    (t.drop 2).length < t.length := by
  have := (List.isPrefixOf_iff_prefix.mp h).length_le
  simp only [List.length_drop]
  simp at this
  omega

/-- `none` is a panic of one of the slice expressions. -/
def normalizeTypeName (typeName : List Char) : Option (List Char) :=
  if isArray : matchString arrayPattern typeName then
    match slice typeName (index typeName '[' + 1) (index typeName ']'),
      hs : slice typeName (index typeName ']' + 1) typeName.length with
    | some numberPart, some typePart =>
      (fun r => '[' :: numberPart ++ ']' :: r) <$> normalizeTypeName typePart
    | _, _ => none
  else if isSlice : "[]".toList.isPrefixOf typeName then
    -- `typeName[2:]`, in range after the prefix test
    ("[]".toList ++ ·) <$> normalizeTypeName (typeName.drop 2)
  else some ((elementaryArm typeName).getD typeName)
termination_by typeName.length
decreasing_by
  · exact slice_length_lt (by have := index_nonneg (mem_of_matchString isArray
      (c := ']') (by simp [arrayPattern])); omega) hs
  · exact length_lt_of_isPrefixOf isSlice

def normalizeTypeNameWithStatus (typeName : List Char) : Option (List Char × Bool) :=
  if matchString arrayPattern typeName then
    match slice typeName (index typeName '[' + 1) (index typeName ']'),
      slice typeName (index typeName ']' + 1) typeName.length with
    | some numberPart, some typePart =>
      (fun r => ('[' :: numberPart ++ ']' :: r, true)) <$> normalizeTypeName typePart
    | _, _ => none
  else if "[]".toList.isPrefixOf typeName then
    (fun r => ("[]".toList ++ r, true)) <$> normalizeTypeName (typeName.drop 2)
  else if "uint".toList.isPrefixOf typeName then
    some (if typeName = "uint".toList then "uint256".toList else typeName, true)
  else if "int".toList.isPrefixOf typeName then
    some (if typeName = "int".toList then "int256".toList else typeName, true)
  else if "bool".toList.isPrefixOf typeName then some (typeName, true)
  else if "bytes".toList.isPrefixOf typeName then some (typeName, true)
  else if typeName = "string".toList then some ("string".toList, true)
  else if typeName = "address".toList then some ("address".toList, true)
  else if typeName = "addresspayable".toList then some ("address".toList, true)
  else if typeName = "tuple".toList then some ("tuple".toList, true)
  else some (typeName, false)

/-! ## The spec's normaliser -/

def dimPrefix : List Char → Option (List Char × List Char)
  | '[' :: t =>
    match t.drop (t.takeWhile isDigit).length with
    | ']' :: rest => if t.takeWhile isDigit = [] then none else some (t.takeWhile isDigit, rest)
    | _ => none
  | _ => none

theorem dimPrefix_length {t n rest : List Char} (h : dimPrefix t = some (n, rest)) :
    rest.length < t.length := by
  unfold dimPrefix at h
  split at h
  · next t =>
    split at h
    · next rest' hd =>
      split_ifs at h
      cases h
      have := congrArg List.length hd
      simp only [List.length_drop, List.length_cons] at this
      simp only [List.length_cons]
      omega
    · cases h
  · cases h

def specElementary (t : List Char) : List Char :=
  if t = "uint".toList then "uint256".toList
  else if t = "int".toList then "int256".toList
  else if t = "addresspayable".toList then "address".toList
  else t

def specNormalize (t : List Char) : List Char :=
  match h : dimPrefix t with
  | some (n, rest) => "[".toList ++ n ++ "]".toList ++ specNormalize rest
  | none =>
    if isSlice : "[]".toList.isPrefixOf t then "[]".toList ++ specNormalize (t.drop 2)
    else specElementary t
termination_by t.length
decreasing_by
  · exact dimPrefix_length h
  · exact length_lt_of_isPrefixOf isSlice

/-! ## The array test -/

def digitsClose (s : List Char) : Bool :=
  s.takeWhile isDigit ≠ [] && (s.drop (s.takeWhile isDigit).length).head? == some ']'

def hasDim : List Char → Bool
  | [] => false
  | c :: cs => (c == '[' && digitsClose cs) || hasDim cs

theorem matchHere_arrayPattern (c : Char) (cs : List Char) (pos : Nat) :
    (matchHere arrayPattern (c :: cs) pos []).isSome = (c == '[' && digitsClose cs) := by
  have hstop : ∀ x xs pos caps, isDigit x = true →
      matchHere [.char ']'] (x :: xs) pos caps = none := by
    intro x xs pos caps hx
    have : x ≠ ']' := by rintro rfl; exact absurd hx (by decide)
    simp [matchHere_char_cons, this]
  by_cases hc : c = '['
  · subst hc
    rw [arrayPattern, matchHere_char_cons, if_pos rfl, matchHere_rep_stop hstop]
    have hne : cs.takeWhile isDigit ≠ [] ↔ 1 ≤ (cs.takeWhile isDigit).length := by
      rw [Nat.one_le_iff_ne_zero, Ne, Ne, List.length_eq_zero]
    simp only [digitsClose, beq_self_eq_true, Bool.true_and]
    by_cases hn : 1 ≤ (cs.takeWhile isDigit).length
    · rw [if_pos hn, decide_eq_true (hne.mpr hn), Bool.true_and]
      cases cs.drop (cs.takeWhile isDigit).length with
      | nil => rfl
      | cons y ys => by_cases hy : y = ']' <;> simp [matchHere_char_cons, hy, matchHere]
    · rw [if_neg hn, decide_eq_false (mt hne.mp hn)]
      rfl
  · simp [arrayPattern, matchHere_char_cons, hc]

theorem matchString_arrayPattern (s : List Char) : matchString arrayPattern s = hasDim s := by
  suffices ∀ pos, (findAt arrayPattern s pos).isSome = hasDim s from this 0
  induction s with
  | nil => intro pos; simp [findAt, arrayPattern, matchHere, hasDim]
  | cons c cs ih => intro pos; rw [findAt_cons_isSome, matchHere_arrayPattern, ih, hasDim]

theorem hasDim_append_of_not_mem {pre : List Char} (h : '[' ∉ pre) (l : List Char) :
    hasDim (pre ++ l) = hasDim l := by
  induction pre with
  | nil => rfl
  | cons c pre ih =>
    have hc : c ≠ '[' := fun e => h (by simp [e])
    simp [hasDim, hc, ih (fun e => h (List.mem_cons_of_mem _ e))]

theorem digitsClose_append_close (l r : List Char) :
    digitsClose (l ++ ']' :: r) = digitsClose (l ++ [']']) := by
  have hd : ∀ r, (l ++ ']' :: r).takeWhile isDigit = l.takeWhile isDigit := by
    intro r
    rw [List.takeWhile_append, List.takeWhile_cons_of_neg (by decide), List.append_nil]
    split_ifs with h
    · exact ((List.takeWhile_sublist _).eq_of_length h).symm
    · rfl
  simp only [digitsClose, hd]
  by_cases h : (l.takeWhile isDigit).length = l.length
  · rw [h, List.drop_left, List.drop_left]
    rfl
  · have hlt : (l.takeWhile isDigit).length < l.length :=
      lt_of_le_of_ne (List.takeWhile_sublist _).length_le h
    rw [List.drop_append_of_le_length hlt.le, List.drop_append_of_le_length hlt.le,
      List.drop_eq_getElem_cons hlt]
    rfl

theorem hasDim_append_close (l r : List Char) :
    hasDim (l ++ ']' :: r) = (hasDim (l ++ [']']) || hasDim r) := by
  induction l with
  | nil => simp [hasDim]
  | cons c l ih =>
    rw [List.cons_append, List.cons_append, hasDim, hasDim, digitsClose_append_close, ih,
      Bool.or_assoc]

theorem hasDim_mem {s : List Char} (h : hasDim s = true) : '[' ∈ s ∧ ']' ∈ s := by
  rw [← matchString_arrayPattern] at h
  exact ⟨mem_of_matchString h (by simp [arrayPattern]),
    mem_of_matchString h (by simp [arrayPattern])⟩

/-! ## The arms of `normalizeTypeName` -/

theorem normalizeTypeName_array {t pre X rest : List Char} (hArr : hasDim t = true)
    (ht : t = pre ++ '[' :: X ++ ']' :: rest) (h₁ : '[' ∉ pre) (h₂ : ']' ∉ pre)
    (h₃ : ']' ∉ X) :
    normalizeTypeName t = (fun r => '[' :: X ++ ']' :: r) <$> normalizeTypeName rest := by
  have hi : index t '[' = pre.length := by
    rw [ht, List.append_assoc, List.cons_append]; exact index_append_cons h₁
  have hj : index t ']' = (pre ++ '[' :: X).length := by
    rw [ht]; exact index_append_cons (by simp [h₂, h₃, show (']' : Char) ≠ '[' by decide])
  have hn : slice t (index t '[' + 1) (index t ']') = some X :=
    @slice_eq_some _ (pre ++ ['[']) X (']' :: rest) _ _ (by simp [ht]) (by simp [hi])
      (by rw [hj]; simp; omega)
  have hr : slice t (index t ']' + 1) t.length = some rest :=
    @slice_eq_suffix _ (pre ++ '[' :: X ++ [']']) rest _ (by simp [ht])
      (by rw [hj]; simp; omega)
  rw [normalizeTypeName, dif_pos (by rwa [matchString_arrayPattern])]
  split
  · next n r h₄ h₅ => rw [hn] at h₄; rw [hr] at h₅; cases h₄; cases h₅; rfl
  · next h₄ => exact (h₄ _ _ hn hr).elim

theorem normalizeTypeName_panic {t pre mid rest : List Char} (hArr : hasDim t = true)
    (ht : t = pre ++ ']' :: mid ++ '[' :: rest) (h₁ : '[' ∉ pre) (h₂ : ']' ∉ pre)
    (h₃ : '[' ∉ mid) : normalizeTypeName t = none := by
  have hi : index t '[' = (pre ++ ']' :: mid).length := by
    rw [ht]; exact index_append_cons (by simp [h₁, h₃, show ('[' : Char) ≠ ']' by decide])
  have hj : index t ']' = pre.length := by
    rw [ht, List.append_assoc, List.cons_append]; exact index_append_cons h₂
  have hn : slice t (index t '[' + 1) (index t ']') = none := slice_eq_none (by
    rw [hi, hj]; simp only [List.length_append, List.length_cons]; omega)
  rw [normalizeTypeName, dif_pos (by rwa [matchString_arrayPattern])]
  split
  · next n r h₄ h₅ => rw [hn] at h₄; cases h₄
  · rfl

theorem normalizeTypeName_slice {t rest : List Char} (hArr : hasDim t = false)
    (ht : t = '[' :: ']' :: rest) :
    normalizeTypeName t = ("[]".toList ++ ·) <$> normalizeTypeName rest := by
  rw [normalizeTypeName, dif_neg (by rw [matchString_arrayPattern, hArr]; decide),
    dif_pos (by simp [ht]), ht]
  rfl

theorem normalizeTypeName_elementary {t : List Char} (hArr : hasDim t = false)
    (hs : "[]".toList.isPrefixOf t = false) :
    normalizeTypeName t = some ((elementaryArm t).getD t) := by
  rw [normalizeTypeName, dif_neg (by rw [matchString_arrayPattern, hArr]; decide),
    dif_neg (by rw [hs]; decide)]

theorem normalizeTypeName_of_not_mem {t : List Char} (h : '[' ∉ t) :
    normalizeTypeName t = some ((elementaryArm t).getD t) := by
  refine normalizeTypeName_elementary ?_ ?_
  · cases hd : hasDim t
    · rfl
    · exact absurd (hasDim_mem hd).1 h
  · cases t with
    | nil => rfl
    | cons c t => simp [List.isPrefixOf, show '[' ≠ c from fun e => h (by subst e; simp)]

theorem bracket_split {t : List Char} (h₁ : '[' ∈ t) (h₂ : ']' ∈ t) :
    (∃ pre X rest, t = pre ++ '[' :: X ++ ']' :: rest ∧ '[' ∉ pre ∧ ']' ∉ pre ∧ ']' ∉ X) ∨
    (∃ pre mid rest, t = pre ++ ']' :: mid ++ '[' :: rest ∧ '[' ∉ pre ∧ ']' ∉ pre ∧
      '[' ∉ mid) := by
  obtain ⟨s, t', rfl, hs⟩ := exists_first h₁
  by_cases hc : ']' ∈ s
  · obtain ⟨pre, mid, rfl, hpre⟩ := exists_first hc
    exact .inr ⟨pre, mid, t', by simp, fun h => hs (by simp [h]), hpre,
      fun h => hs (by simp [h])⟩
  · have : ']' ∈ t' := by simpa [hc, show (']' : Char) ≠ '[' by decide] using h₂
    obtain ⟨X, rest, rfl, hX⟩ := exists_first this
    exact .inl ⟨s, X, rest, by simp, hs, hc, hX⟩

/-- What one call of `normalizeTypeName` can do: recurse after a dimension, panic, recurse
after `[]`, or finish in an elementary arm. -/
theorem normalizeTypeName_cases (t : List Char) :
    (hasDim t = true ∧ ∃ pre X rest, t = pre ++ '[' :: X ++ ']' :: rest ∧ '[' ∉ pre ∧
      ']' ∉ X ∧ normalizeTypeName t = (fun r => '[' :: X ++ ']' :: r) <$> normalizeTypeName rest) ∨
    normalizeTypeName t = none ∨
    (hasDim t = false ∧ ∃ rest, t = '[' :: ']' :: rest ∧
      normalizeTypeName t = ("[]".toList ++ ·) <$> normalizeTypeName rest) ∨
    (hasDim t = false ∧ normalizeTypeName t = some ((elementaryArm t).getD t)) := by
  cases hd : hasDim t
  · by_cases hs : "[]".toList.isPrefixOf t = true
    · obtain ⟨rest, rfl⟩ := List.isPrefixOf_iff_prefix.mp hs
      exact .inr (.inr (.inl ⟨rfl, rest, rfl, normalizeTypeName_slice hd rfl⟩))
    · exact .inr (.inr (.inr ⟨rfl, normalizeTypeName_elementary hd (Bool.eq_false_iff.mpr hs)⟩))
  · obtain ⟨hl, hr⟩ := hasDim_mem hd
    rcases bracket_split hl hr with ⟨pre, X, rest, ht, h₁, h₂, h₃⟩ | ⟨pre, mid, rest, ht, h₁, h₂, h₃⟩
    · exact .inl ⟨rfl, pre, X, rest, ht, h₁, h₃, normalizeTypeName_array hd ht h₁ h₂ h₃⟩
    · exact .inr (.inl (normalizeTypeName_panic hd ht h₁ h₂ h₃))

/-! ## Idempotence -/

theorem normalizeTypeName_bracketed {X R : List Char} (h₃ : ']' ∉ X)
    (hX : hasDim ('[' :: X ++ ']' :: R) = true ∨ X = []) :
    normalizeTypeName ('[' :: X ++ ']' :: R) =
      (fun r => '[' :: X ++ ']' :: r) <$> normalizeTypeName R := by
  cases hd : hasDim ('[' :: X ++ ']' :: R)
  · obtain rfl : X = [] := hX.resolve_left (by rw [hd]; decide)
    exact normalizeTypeName_slice hd rfl
  · exact @normalizeTypeName_array _ [] X R hd rfl (by simp) (by simp) h₃

theorem hasDim_normalizeTypeName {t u : List Char} (h : normalizeTypeName t = some u)
    (hd : hasDim t = true) : hasDim u = true := by
  rcases normalizeTypeName_cases t with
    ⟨-, pre, X, rest, ht, h₁, -, hn⟩ | hn | ⟨hd', -⟩ | ⟨hd', -⟩
  · rw [hn] at h
    obtain ⟨R, hR, rfl⟩ := Option.map_eq_some'.mp h
    rw [ht, hasDim_append_close, List.append_assoc, hasDim_append_of_not_mem h₁] at hd
    rw [hasDim_append_close]
    rcases Bool.or_eq_true_iff.mp hd with h | h
    · rw [h, Bool.true_or]
    · rw [hasDim_normalizeTypeName hR h, Bool.or_true]
  · simp [hn] at h
  · simp [hd'] at hd
  · simp [hd'] at hd
termination_by t.length
decreasing_by simp_wf; rw [ht]; simp; omega

theorem elementaryArm_eq_some {t v : List Char} (h : elementaryArm t = some v) :
    v = t ∨ (t = "uint".toList ∧ v = "uint256".toList) ∨ (t = "int".toList ∧ v = "int256".toList) ∨
      (t = "addresspayable".toList ∧ v = "address".toList) := by
  simp only [elementaryArm, ite_eq_iff, Option.some.injEq, reduceCtorEq, and_false, or_false] at h
  repeat' rcases h with ⟨h₁, h⟩ | ⟨h₁, h⟩
  all_goals subst_vars; simp only [and_self, or_true, true_or]

theorem elementaryArm_isSome_eq_false (t : List Char) :
    (elementaryArm t).isSome = false ↔ "uint".toList.isPrefixOf t = false ∧
      "int".toList.isPrefixOf t = false ∧ "bool".toList.isPrefixOf t = false ∧
      "bytes".toList.isPrefixOf t = false ∧
      t ∉ ["string".toList, "address".toList, "addresspayable".toList, "tuple".toList] := by
  simp only [Option.not_isSome, Option.isNone_iff_eq_none, elementaryArm, ite_eq_iff, reduceCtorEq,
    and_false, false_or, or_false, and_true, List.mem_cons, List.not_mem_nil, not_or,
    Bool.not_eq_true]

theorem elementaryArm_fixed {t v : List Char} (h : elementaryArm t = some v) :
    v = t ∨ ('[' ∉ v ∧ elementaryArm v = some v) := by
  rcases elementaryArm_eq_some h with rfl | ⟨-, rfl⟩ | ⟨-, rfl⟩ | ⟨-, rfl⟩
  · exact .inl rfl
  all_goals exact .inr ⟨by decide, rfl⟩

theorem normalizeTypeName_idem {t u : List Char} (h : normalizeTypeName t = some u) :
    normalizeTypeName u = some u := by
  rcases normalizeTypeName_cases t with
    ⟨hd, pre, X, rest, ht, h₁, h₃, hn⟩ | hn | ⟨-, rest, ht, hn⟩ | ⟨-, hn⟩
  · have hu := hasDim_normalizeTypeName h hd
    rw [hn] at h
    obtain ⟨R, hR, rfl⟩ := Option.map_eq_some'.mp h
    rw [normalizeTypeName_bracketed h₃ (.inl hu), normalizeTypeName_idem hR]
    rfl
  · simp [hn] at h
  · rw [hn] at h
    obtain ⟨R, hR, rfl⟩ := Option.map_eq_some'.mp h
    show normalizeTypeName ('[' :: [] ++ ']' :: R) = some ('[' :: [] ++ ']' :: R)
    rw [normalizeTypeName_bracketed (by simp) (.inr rfl), normalizeTypeName_idem hR]
    rfl
  · rw [hn] at h
    cases h
    cases he : elementaryArm t with
    | none => simpa [he] using hn
    | some v =>
      rcases elementaryArm_fixed he with rfl | ⟨hb, hv⟩
      · simpa [he] using hn
      · simp [normalizeTypeName_of_not_mem hb, hv]
termination_by t.length
decreasing_by all_goals simp_wf; rw [ht]; simp; omega

theorem normalizeTypeName_idem_dim :
    normalizeTypeName "[2]uint".toList = some "[2]uint256".toList ∧
      normalizeTypeName "[2]uint256".toList = some "[2]uint256".toList :=
  have h : normalizeTypeName "[2]uint".toList = some "[2]uint256".toList := by
    rw [@normalizeTypeName_array "[2]uint".toList [] "2".toList "uint".toList (by decide) rfl
      (by simp) (by simp) (by decide), normalizeTypeName_of_not_mem (by decide)]
    rfl
  ⟨h, normalizeTypeName_idem h⟩

/-! ## Agreement with the spec on names in prefix form -/

/-- Names in prefix form: dimensions `[N]`, with `N` nonempty digits, or `[]`, then a name with
no `[`. -/
inductive PrefixForm : List Char → Prop
  | base {t} : '[' ∉ t → PrefixForm t
  | dim {n t} : n ≠ [] → (∀ c ∈ n, isDigit c = true) → PrefixForm t →
      PrefixForm ('[' :: n ++ ']' :: t)
  | slice {t} : PrefixForm t → PrefixForm ('[' :: ']' :: t)

section
variable {n : List Char} (hd : ∀ c ∈ n, isDigit c = true)
include hd

theorem takeWhile_dims (t : List Char) : (n ++ ']' :: t).takeWhile isDigit = n := by
  rw [List.takeWhile_append_of_pos hd, List.takeWhile_cons_of_neg (by decide), List.append_nil]

theorem close_not_mem_dims : ']' ∉ n := fun h => absurd (hd _ h) (by decide)

theorem dimPrefix_dims (hn : n ≠ []) (t : List Char) :
    dimPrefix ('[' :: n ++ ']' :: t) = some (n, t) := by
  simp only [List.cons_append, dimPrefix, takeWhile_dims hd, List.drop_left, if_neg hn]

theorem hasDim_dims (hn : n ≠ []) (t : List Char) : hasDim ('[' :: n ++ ']' :: t) = true := by
  have : digitsClose (n ++ ']' :: t) = true := by
    rw [digitsClose, takeWhile_dims hd, List.drop_left]
    simp [hn]
  rw [List.cons_append, hasDim, this]
  rfl
end

theorem not_isPrefixOf_of_not_mem {t : List Char} (h : '[' ∉ t) :
    "[]".toList.isPrefixOf t = false := by
  cases t with
  | nil => rfl
  | cons c t => simp [List.isPrefixOf, show '[' ≠ c from fun e => h (by subst e; simp)]

theorem dimPrefix_of_not_mem {t : List Char} (h : '[' ∉ t) : dimPrefix t = none := by
  unfold dimPrefix
  split
  · exact absurd (List.mem_cons_self _ _) h
  · rfl

theorem specNormalize_dim {t n rest : List Char} (h : dimPrefix t = some (n, rest)) :
    specNormalize t = "[".toList ++ n ++ "]".toList ++ specNormalize rest := by
  rw [specNormalize]
  split
  · next h' => rw [h] at h'; cases h'; rfl
  · next h' => rw [h] at h'; cases h'

theorem specNormalize_of_none {t : List Char} (h : dimPrefix t = none) :
    specNormalize t = if "[]".toList.isPrefixOf t then "[]".toList ++ specNormalize (t.drop 2)
      else specElementary t := by
  rw [specNormalize]
  split
  · next h' => rw [h] at h'; cases h'
  · simp only [dite_eq_ite]

theorem elementaryArm_getD_eq (t : List Char) : (elementaryArm t).getD t = specElementary t := by
  unfold specElementary
  split_ifs with h₁ h₂ h₃
  · subst h₁; rfl
  · subst h₂; rfl
  · subst h₃; rfl
  · cases he : elementaryArm t with
    | none => rfl
    | some v =>
      rcases elementaryArm_eq_some he with rfl | ⟨h, -⟩ | ⟨h, -⟩ | ⟨h, -⟩
      · rfl
      all_goals contradiction

/-- On names in prefix form the code computes the spec's normaliser, and does not panic. -/
theorem normalizeTypeName_prefixForm {t : List Char} (h : PrefixForm t) :
    normalizeTypeName t = some (specNormalize t) := by
  induction h with
  | base h =>
    rw [normalizeTypeName_of_not_mem h, specNormalize_of_none (dimPrefix_of_not_mem h),
      not_isPrefixOf_of_not_mem h, elementaryArm_getD_eq]
    rfl
  | dim hn hd _ ih =>
    rw [normalizeTypeName_bracketed (close_not_mem_dims hd) (.inl (hasDim_dims hd hn _)), ih,
      specNormalize_dim (dimPrefix_dims hd hn _)]
    simp
  | @slice t _ ih =>
    have hd : dimPrefix ('[' :: ']' :: t) = none := by
      simp [dimPrefix, List.takeWhile_cons_of_neg (show ¬isDigit ']' = true by decide)]
    show normalizeTypeName ('[' :: [] ++ ']' :: t) = _
    rw [normalizeTypeName_bracketed (by simp) (.inr rfl), ih, specNormalize_of_none hd]
    simp

theorem normalizeTypeName_prefixForm_dims :
    PrefixForm "[2][]uint".toList ∧
      normalizeTypeName "[2][]uint".toList = some (specNormalize "[2][]uint".toList) :=
  have h : PrefixForm "[2][]uint".toList :=
    .dim (n := "2".toList) (t := "[]uint".toList) (by simp) (by decide) (.slice (.base (by decide)))
  ⟨h, normalizeTypeName_prefixForm h⟩

/-- A suffix array such as `uint256[3]` loses its element type, where the spec keeps the name
unchanged; and a `]` before the first `[` makes a slice expression panic. -/
theorem normalizeTypeName_suffix_array :
    normalizeTypeName "uint256[3]".toList = some "[3]".toList ∧
      specNormalize "uint256[3]".toList = "uint256[3]".toList ∧
      normalizeTypeName "][1]".toList = none := by
  refine ⟨?_, ?_, ?_⟩
  · rw [@normalizeTypeName_array _ "uint256".toList "3".toList []
      (by decide) (by decide) (by decide) (by decide) (by decide),
      normalizeTypeName_of_not_mem (by simp)]
    rfl
  · rw [specNormalize_of_none (by decide)]
    decide
  · exact @normalizeTypeName_panic _ [] [] "1]".toList (by decide)
      (by decide) (by simp) (by simp) (by simp)

/-! ## Names with paired brackets -/

/-- Names whose brackets come in pairs `[x]` with no bracket inside `x`, with any other text
around and between the pairs: `uint256[3]`, `[2][]uint`, `a[1]b[]`. -/
inductive Bracketed : List Char → Prop
  | nil : Bracketed []
  | plain {c : Char} {t : List Char} : c ≠ '[' → c ≠ ']' → Bracketed t → Bracketed (c :: t)
  | group {x t : List Char} : '[' ∉ x → ']' ∉ x → Bracketed t → Bracketed ('[' :: x ++ ']' :: t)

theorem eq_of_append_cons_of_not_mem {c : Char} :
    ∀ {x X t r : List Char}, c ∉ x → c ∉ X → x ++ c :: t = X ++ c :: r → t = r
  | [], [], _, _, _, _, h => (List.cons.inj h).2
  | [], _ :: _, _, _, _, hX, h => absurd ((List.cons.inj h).1 ▸ .head _) hX
  | _ :: _, [], _, _, hx, _, h => absurd ((List.cons.inj h).1 ▸ .head _) hx
  | _ :: _, _ :: _, _, _, hx, hX, h =>
    eq_of_append_cons_of_not_mem (fun m => hx (.tail _ m)) (fun m => hX (.tail _ m))
      (List.cons.inj h).2

namespace Bracketed

theorem not_close_first {u : List Char} (h : Bracketed u) :
    ∀ {pre s : List Char}, u = pre ++ ']' :: s → '[' ∉ pre → False := by
  induction h with
  | nil => intro pre s he; simp at he
  | plain _ hc₂ _ ih =>
    rintro (_ | ⟨d, pre⟩) s he hp
    · exact hc₂ (List.cons.inj he).1
    · exact ih (List.cons.inj he).2 fun hm => hp (.tail _ hm)
  | group _ _ _ _ =>
    rintro (_ | ⟨d, pre⟩) s he hp
    · exact absurd (List.cons.inj he).1 (by decide)
    · exact hp ((List.cons.inj he).1 ▸ .head _)

theorem of_group {u : List Char} (h : Bracketed u) :
    ∀ {pre X rest : List Char}, u = pre ++ '[' :: X ++ ']' :: rest → '[' ∉ pre → ']' ∉ X →
      Bracketed rest := by
  induction h with
  | nil => intro pre X rest he; simp at he
  | plain hc₁ _ _ ih =>
    rintro (_ | ⟨d, pre⟩) X rest he hp hX
    · exact absurd (List.cons.inj he).1 hc₁
    · exact ih (List.cons.inj he).2 (fun hm => hp (.tail _ hm)) hX
  | group _ hx₂ ht _ =>
    rintro (_ | ⟨d, pre⟩) X rest he hp hX
    · exact eq_of_append_cons_of_not_mem hx₂ hX (List.cons.inj he).2 ▸ ht
    · exact (hp ((List.cons.inj he).1 ▸ .head _)).elim

end Bracketed

/-- `normalizeTypeName` does not panic on a name whose brackets come in pairs: the slice
expression that panics needs a `]` before the first `[`, and after each pair the rest of the
name has paired brackets again. -/
theorem normalizeTypeName_ne_none_of_bracketed {t : List Char} (h : Bracketed t) :
    normalizeTypeName t ≠ none := by
  cases hd : hasDim t
  · by_cases hs : "[]".toList.isPrefixOf t = true
    · obtain ⟨rest, ht⟩ := List.isPrefixOf_iff_prefix.mp hs
      rw [normalizeTypeName_slice hd ht.symm]
      simpa using normalizeTypeName_ne_none_of_bracketed
        (@Bracketed.of_group _ h [] [] rest ht.symm (by simp) (by simp))
    · rw [normalizeTypeName_elementary hd (Bool.eq_false_iff.mpr hs)]
      exact Option.some_ne_none _
  · obtain ⟨hl, hr⟩ := hasDim_mem hd
    rcases bracket_split hl hr with ⟨pre, X, rest, ht, h₁, h₂, h₃⟩ | ⟨pre, mid, rest, ht, h₁, -, -⟩
    · rw [normalizeTypeName_array hd ht h₁ h₂ h₃]
      simpa using normalizeTypeName_ne_none_of_bracketed (h.of_group ht h₁ h₃)
    · exact (h.not_close_first (s := mid ++ '[' :: rest) (by simp [ht]) h₁).elim
termination_by t.length
decreasing_by all_goals simp_wf; (first | rw [ht] | rw [← ht]); simp; omega

theorem normalizeTypeName_suffix_ne_none :
    Bracketed "x[2][]".toList ∧ normalizeTypeName "x[2][]".toList ≠ none :=
  have h : Bracketed "x[2][]".toList :=
    .plain (by decide) (by decide) (.group (x := "2".toList) (t := "[]".toList) (by decide)
      (by decide) (.group (x := []) (t := []) (by decide) (by decide) .nil))
  ⟨h, normalizeTypeName_ne_none_of_bracketed h⟩

/-! ## The status variant -/

theorem statusArm_ite {c : Prop} [Decidable c] {a t : List Char} {o : Option (List Char)}
    {r : Option (List Char × Bool)} (h : r = some (o.getD t, o.isSome)) :
    (if c then some (a, true) else r) =
      some ((if c then some a else o).getD t, (if c then some a else o).isSome) := by
  split <;> simp [h]

/-- The two copies of the switch agree: the status variant returns the plain normaliser's name,
panics on the same names, and reports `false` exactly from the default arm. -/
theorem normalizeTypeNameWithStatus_eq (t : List Char) :
    ∃ b, normalizeTypeNameWithStatus t = (·, b) <$> normalizeTypeName t ∧
      (b = false ↔ matchString arrayPattern t = false ∧ "[]".toList.isPrefixOf t = false ∧
        "uint".toList.isPrefixOf t = false ∧ "int".toList.isPrefixOf t = false ∧
        "bool".toList.isPrefixOf t = false ∧ "bytes".toList.isPrefixOf t = false ∧
        t ∉ ["string".toList, "address".toList, "addresspayable".toList, "tuple".toList]) := by
  by_cases hA : matchString arrayPattern t = true
  · refine ⟨true, ?_, by simp only [hA, Bool.true_eq_false, false_and, iff_self]⟩
    rw [normalizeTypeNameWithStatus, if_pos hA, normalizeTypeName.eq_1 t, dif_pos hA]
    split <;> split <;> simp_all
    rfl
  have hd : hasDim t = false := by rwa [← matchString_arrayPattern, ← Bool.not_eq_true]
  by_cases hS : "[]".toList.isPrefixOf t = true
  · refine ⟨true, ?_, by simp only [hS, Bool.true_eq_false, false_and, and_false, iff_self]⟩
    rw [normalizeTypeNameWithStatus, if_neg hA, if_pos hS]
    obtain ⟨rest, rfl⟩ := List.isPrefixOf_iff_prefix.mp hS
    rw [normalizeTypeName_slice hd rfl, Functor.map_map]
    rfl
  · refine ⟨(elementaryArm t).isSome, ?_, ?_⟩
    · rw [normalizeTypeNameWithStatus, if_neg hA, if_neg hS,
        normalizeTypeName_elementary hd (Bool.eq_false_iff.mpr hS)]
      unfold elementaryArm
      iterate 8 refine statusArm_ite ?_
      rfl
    · simp only [elementaryArm_isSome_eq_false, Bool.eq_false_iff.mpr hA,
        Bool.eq_false_iff.mpr hS, true_and]

end Solgo
