import Solgo.Regexp
import Mathlib.Data.List.Infix

/-!
# Mapping types

`parseMappingType` of `abis/helpers.go` searches its text for the mapping pattern, returns the
key and the value it captures, and parses a value that contains `mapping` again. It succeeds
exactly when a piece of the text is in the pattern's language, and on a nested mapping it
returns every key with the innermost value.
-/

namespace Solgo

def mappingPattern : List Item :=
  "mapping(".toList.map .char ++
    [.save 2, .rep isWord 1, .save 3, .rep isSpace 0, .char '=', .char '>', .rep isSpace 0,
      .save 4, .rep (· != '\n') 1, .save 5, .char ')']

def isMappingType (name : List Char) : Bool := decide ("mapping".toList <:+: name)

theorem findStringSubmatch_mapping_length {abi m₀ m₁ m₂ : List Char} {rest : List (List Char)}
    (h : findStringSubmatch mappingPattern 2 abi = m₀ :: m₁ :: m₂ :: rest) :
    m₂.length < abi.length := by
  unfold findStringSubmatch at h
  split at h
  · next caps hc =>
    simp only [List.range_succ, List.range_zero, List.nil_append, List.singleton_append,
      List.cons_append, List.map_cons, List.map_nil, List.cons.injEq] at h
    obtain ⟨-, -, rfl, -⟩ := h
    exact groupText_length_lt (c := 'm') hc (by omega)
  · cases h

def parseMappingType (abi : List Char) : Bool × List (List Char) × List (List Char) :=
  match h : findStringSubmatch mappingPattern 2 abi with
  | _ :: key :: value :: _ =>
    if isMappingType value then
      let nested := parseMappingType value
      (true, key :: nested.2.1, nested.2.2)
    else (true, [key], [value])
  | _ => (false, [], [])
termination_by abi.length
decreasing_by exact findStringSubmatch_mapping_length h

/-! ## One level of a mapping -/

theorem isSpace_of_isWord {x : Char} (h : isWord x = true) : isSpace x = false := by
  cases hs : isSpace x
  · rfl
  · simp only [isSpace, Bool.or_eq_true, beq_iff_eq] at hs
    rcases hs with (((rfl | rfl) | rfl) | rfl) | rfl <;> revert h <;> decide

theorem matchHere_mapping_key {k rest : List Char} (hk : k ≠ []) (hw : ∀ c ∈ k, isWord c = true)
    (tail : List Item) (pos : Nat) (caps : List (Nat × Nat)) :
    matchHere (.rep isWord 1 :: .save 3 :: .rep isSpace 0 :: .char '=' :: .char '>' :: tail)
      (k ++ ' ' :: '=' :: '>' :: rest) pos caps =
      matchHere tail rest (pos + k.length + 3) ((3, pos + k.length) :: caps) := by
  have hstop₀ : ∀ x xs pos caps, isSpace x = true →
      matchHere (.char '=' :: .char '>' :: tail) (x :: xs) pos caps = none := by
    intro x xs pos caps hx
    rw [matchHere_char_cons, if_neg (by rintro rfl; revert hx; decide)]
  have hstop₁ : ∀ x xs pos caps, isWord x = true →
      matchHere (.save 3 :: .rep isSpace 0 :: .char '=' :: .char '>' :: tail) (x :: xs) pos caps
        = none := by
    intro x xs pos caps hx
    rw [matchHere_save, matchHere_rep_stop hstop₀,
      List.takeWhile_cons_of_neg (by simp [isSpace_of_isWord hx])]
    simp only [List.length_nil, le_refl, if_true, List.drop_zero]
    rw [matchHere_char_cons, if_neg (by rintro rfl; revert hx; decide)]
  rw [matchHere_rep_stop hstop₁, List.takeWhile_append_of_pos hw,
    List.takeWhile_cons_of_neg (by decide), List.append_nil,
    if_pos (show 1 ≤ k.length from List.length_pos.mpr hk), List.drop_left, matchHere_save, matchHere_rep_stop hstop₀,
    List.takeWhile_cons_of_pos (by decide), List.takeWhile_cons_of_neg (by decide)]
  simp only [List.length_singleton, Nat.zero_le, if_true, List.drop_one, List.tail_cons]
  rw [matchHere_char_cons, if_pos rfl, matchHere_char_cons, if_pos rfl]

theorem takeWhile_notNewline {l : List Char} (h : '\n' ∉ l) : l.takeWhile (· != '\n') = l :=
  List.takeWhile_eq_self_iff.mpr fun c hc => by
    have : c ≠ '\n' := fun e => h (e ▸ hc)
    simpa using this

theorem matchHere_mapping_value {inner : List Char} (hi : inner ≠ []) (hnl : '\n' ∉ inner)
    (hs : ∀ c, inner.head? = some c → isSpace c = false) (pos : Nat)
    (caps : List (Nat × Nat)) :
    matchHere [.rep isSpace 0, .save 4, .rep (· != '\n') 1, .save 5, .char ')', .save 1]
      (' ' :: (inner ++ [')'])) pos caps =
      some ((1, pos + 1 + inner.length + 1) :: (5, pos + 1 + inner.length) :: (4, pos + 1) :: caps) := by
  obtain ⟨c, cs, rfl⟩ := List.exists_cons_of_ne_nil hi
  have hsp : (' ' :: (c :: cs ++ [')'])).takeWhile isSpace = [' '] := by
    rw [List.takeWhile_cons_of_pos (by decide), List.cons_append,
      List.takeWhile_cons_of_neg (by simp [hs c rfl])]
  apply matchHere_rep_max (by simp [hsp])
  rw [hsp, List.length_singleton, List.drop_one, List.tail_cons, matchHere_save, matchHere,
    takeWhile_notNewline (by simpa using hnl), List.length_append, List.length_singleton,
    firstDown_succ_of_none (by simp) (by simp [matchHere_save, matchHere_char_nil]),
    firstDown_of_some (by simp)]
  simp [matchHere_save, matchHere_char_cons, matchHere]

def mappingText (k inner : List Char) : List Char :=
  "mapping(".toList ++ k ++ " => ".toList ++ inner ++ [')']

theorem take_drop_of_eq {s a m b : List Char} {lo hi : Nat} (hs : s = a ++ m ++ b)
    (hlo : lo = a.length) (hhi : hi = a.length + m.length) : (s.take hi).drop lo = m := by
  subst hs hlo hhi
  rw [← List.length_append, List.take_left, List.drop_left]

theorem findStringSubmatch_mappingText {k inner : List Char} (hk : k ≠ [])
    (hw : ∀ c ∈ k, isWord c = true) (hi : inner ≠ []) (hnl : '\n' ∉ inner)
    (hs : ∀ c, inner.head? = some c → isSpace c = false) :
    findStringSubmatch mappingPattern 2 (mappingText k inner) = [mappingText k inner, k, inner] := by
  have hp : [Item.save 0] ++ mappingPattern ++ [.save 1] = .save 0 :: ("mapping(".toList.map .char ++
      .save 2 :: .rep isWord 1 :: .save 3 :: .rep isSpace 0 :: .char '=' :: .char '>' ::
      [.rep isSpace 0, .save 4, .rep (· != '\n') 1, .save 5, .char ')', .save 1]) := rfl
  have hm := (show matchHere ([Item.save 0] ++ mappingPattern ++ [.save 1]) (mappingText k inner) 0 []
      = _ by
    rw [hp, show mappingText k inner = "mapping(".toList ++
      (k ++ ' ' :: '=' :: '>' :: (' ' :: (inner ++ [')']))) by simp [mappingText],
      matchHere_save, matchHere_chars, matchHere_save, matchHere_mapping_key hk hw,
      matchHere_mapping_value hi hnl hs])
  unfold findStringSubmatch
  rw [findAt_of_matchHere hm]
  show [groupText _ _ 0, groupText _ _ 1, groupText _ _ 2] = _
  dsimp only [groupText, List.lookup]
  simp only [List.cons.injEq, and_true]
  refine ⟨take_drop_of_eq (a := []) (b := []) (by simp) rfl (by simp [mappingText]; omega),
    take_drop_of_eq (a := "mapping(".toList) (b := " => ".toList ++ inner ++ [')']) (by simp [mappingText]) (by simp)
      (by simp),
    take_drop_of_eq (a := "mapping(".toList ++ k ++ " => ".toList) rfl (by simp; omega)
      (by simp; omega)⟩

theorem parseMappingType_mappingText {k inner : List Char} (hk : k ≠ [])
    (hw : ∀ c ∈ k, isWord c = true) (hi : inner ≠ []) (hnl : '\n' ∉ inner)
    (hs : ∀ c, inner.head? = some c → isSpace c = false) :
    parseMappingType (mappingText k inner) =
      if isMappingType inner then
        (true, k :: (parseMappingType inner).2.1, (parseMappingType inner).2.2)
      else (true, [k], [inner]) := by
  rw [parseMappingType]
  split
  · next h =>
    rw [findStringSubmatch_mappingText hk hw hi hnl hs] at h
    simp only [List.cons.injEq] at h
    obtain ⟨-, rfl, rfl, -⟩ := h
    rfl
  · next h => exact absurd (findStringSubmatch_mappingText hk hw hi hnl hs) (h _ _ _ _)

theorem parseMappingType_of_not_mem {abi : List Char} (h : '(' ∉ abi) :
    parseMappingType abi = (false, [], []) := by
  have hf : findStringSubmatch mappingPattern 2 abi = [] := by
    rw [findStringSubmatch, findAt_eq_none_of_not_mem (c := '(') (by simp [mappingPattern]) h]
  rw [parseMappingType]
  split
  · next h' => rw [hf] at h'; cases h'
  · rfl

/-! ## Nested mappings -/

def composeMapping : List (List Char) → List Char → List Char
  | [], value => value
  | k :: ks, value => mappingText k (composeMapping ks value)

section
variable {value : List Char} (hv : value ≠ []) (hnl : '\n' ∉ value)
  (hs : ∀ c, value.head? = some c → isSpace c = false)
include hv hnl hs

theorem composeMapping_level {ks : List (List Char)}
    (hk : ∀ k ∈ ks, k ≠ [] ∧ ∀ c ∈ k, isWord c = true) :
    composeMapping ks value ≠ [] ∧ '\n' ∉ composeMapping ks value ∧
      ∀ c, (composeMapping ks value).head? = some c → isSpace c = false := by
  induction ks with
  | nil => exact ⟨hv, hnl, hs⟩
  | cons k ks ih =>
    obtain ⟨-, hnl', -⟩ := ih fun k' hk' => hk k' (List.mem_cons_of_mem _ hk')
    have hkn : '\n' ∉ k := fun h => absurd ((hk k (List.mem_cons_self _ _)).2 _ h) (by decide)
    refine ⟨by simp [composeMapping, mappingText], ?_, ?_⟩
    · simp [composeMapping, mappingText, hkn, hnl']
    · intro c hc
      simp only [composeMapping, mappingText, List.append_assoc] at hc
      cases hc
      decide

/-- On a nested mapping whose value does not contain `mapping`, every key is returned, left to
right, with the innermost value; composing them again gives back the text. -/
theorem parseMappingType_composeMapping (hm : isMappingType value = false) :
    ∀ {ks : List (List Char)}, ks ≠ [] → (∀ k ∈ ks, k ≠ [] ∧ ∀ c ∈ k, isWord c = true) →
      parseMappingType (composeMapping ks value) = (true, ks, [value])
  | [], hks, _ => absurd rfl hks
  | [k], _, hk => by
    rw [composeMapping, composeMapping, parseMappingType_mappingText (hk k (by simp)).1
      (hk k (by simp)).2 hv hnl hs, hm]
    rfl
  | k :: k' :: ks, _, hk => by
    have hk' : ∀ k ∈ k' :: ks, k ≠ [] ∧ ∀ c ∈ k, isWord c = true :=
      fun k hk'' => hk k (List.mem_cons_of_mem _ hk'')
    obtain ⟨hi, hnl', hs'⟩ := composeMapping_level hv hnl hs hk'
    have hmi : isMappingType (composeMapping (k' :: ks) value) = true := by
      simp only [isMappingType, composeMapping, mappingText, List.append_assoc, decide_eq_true_eq]
      exact (List.prefix_append _ _).isInfix
    rw [composeMapping, parseMappingType_mappingText (hk k (by simp)).1 (hk k (by simp)).2 hi hnl'
      hs', hmi, if_pos rfl, parseMappingType_composeMapping hm (List.cons_ne_nil _ _) hk']
end

theorem parseMappingType_nested :
    parseMappingType (composeMapping ["address".toList, "uint8".toList] "uint256".toList) =
      (true, ["address".toList, "uint8".toList], ["uint256".toList]) :=
  parseMappingType_composeMapping (by decide) (by decide) (by decide) (by decide) (by simp)
    (by decide)

/-- A value type that contains `mapping` but is not a mapping, here a struct `mappingInfo`, is
parsed again, that parse fails, and the mapping comes back with no value type. -/
theorem parseMappingType_mappingInfo :
    parseMappingType "mapping(address => mappingInfo)".toList =
      (true, ["address".toList], []) := by
  rw [show "mapping(address => mappingInfo)".toList =
      mappingText "address".toList "mappingInfo".toList by decide,
    parseMappingType_mappingText (by decide) (by decide) (by decide) (by decide)
      (by intro c hc; cases hc; decide),
    if_pos (by decide), parseMappingType_of_not_mem (by decide)]

/-! ## What the pattern matches -/

/-- The texts the mapping pattern matches: `mapping(`, a nonempty `\w` word, spaces, `=>`,
spaces, a nonempty text with no newline, and `)`. -/
def MappingMatch (t : List Char) : Prop :=
  ∃ k s₁ s₂ v, t = "mapping(".toList ++ k ++ s₁ ++ "=>".toList ++ s₂ ++ v ++ [')'] ∧
    k ≠ [] ∧ (∀ c ∈ k, isWord c = true) ∧ (∀ c ∈ s₁ ++ s₂, isSpace c = true) ∧
    v ≠ [] ∧ '\n' ∉ v

theorem mappingPattern_items :
    [Item.save 0] ++ mappingPattern ++ [.save 1] = .save 0 :: ("mapping(".toList.map .char ++
      .save 2 :: .rep isWord 1 :: .save 3 :: .rep isSpace 0 :: .char '=' :: .char '>' ::
      .rep isSpace 0 :: .save 4 :: .rep (· != '\n') 1 :: .save 5 :: .char ')' :: [.save 1]) :=
  rfl

theorem matchHere_mapping {s : List Char} {pos : Nat} {r : List (Nat × Nat)}
    (h : matchHere ([.save 0] ++ mappingPattern ++ [.save 1]) s pos [] = some r) :
    ∃ k s₁ s₂ v w, s = "mapping(".toList ++ k ++ s₁ ++ "=>".toList ++ s₂ ++ v ++ ')' :: w ∧
      k ≠ [] ∧ (∀ c ∈ k, isWord c = true) ∧ (∀ c ∈ s₁ ++ s₂, isSpace c = true) ∧
      v ≠ [] ∧ '\n' ∉ v ∧
      r.lookup 2 = some (pos + 8) ∧ r.lookup 3 = some (pos + 8 + k.length) ∧
      r.lookup 4 = some (pos + 8 + k.length + s₁.length + 2 + s₂.length) ∧
      r.lookup 5 = some (pos + 8 + k.length + s₁.length + 2 + s₂.length + v.length) := by
  rw [mappingPattern_items, matchHere_save] at h
  obtain ⟨t, rfl, h₁⟩ := matchHere_chars_split _ h
  rw [matchHere_save] at h₁
  obtain ⟨k, t, rfl, hk, hkw, h₂⟩ := matchHere_rep_split h₁
  rw [matchHere_save] at h₂
  obtain ⟨s₁, t, rfl, -, hs₁, h₃⟩ := matchHere_rep_split h₂
  obtain ⟨t, rfl, h₄⟩ := matchHere_char_split h₃
  obtain ⟨t, rfl, h₅⟩ := matchHere_char_split h₄
  obtain ⟨s₂, t, rfl, -, hs₂, h₆⟩ := matchHere_rep_split h₅
  rw [matchHere_save] at h₆
  obtain ⟨v, t, rfl, hv, hvn, h₇⟩ := matchHere_rep_split h₆
  rw [matchHere_save] at h₇
  obtain ⟨w, rfl, h₈⟩ := matchHere_char_split h₇
  rw [matchHere_save, matchHere, Option.some.injEq] at h₈
  subst h₈
  refine ⟨k, s₁, s₂, v, w, by simp, List.ne_nil_of_length_pos hk, hkw,
    fun c hc => (List.mem_append.mp hc).elim (hs₁ c) (hs₂ c), List.ne_nil_of_length_pos hv,
    fun hn => by simpa using hvn _ hn, ?_⟩
  simp [List.lookup_cons]

theorem groupText_of_lookup {abi pre m post : List Char} {r : List (Nat × Nat)} {g : Nat}
    (habi : abi = pre ++ m ++ post) (h₁ : r.lookup (2 * g) = some pre.length)
    (h₂ : r.lookup (2 * g + 1) = some (pre.length + m.length)) : groupText abi r g = m := by
  unfold groupText
  rw [h₁, h₂]
  exact take_drop_of_eq habi rfl rfl

theorem findAt_mapping_isSome (abi : List Char) :
    (findAt ([.save 0] ++ mappingPattern ++ [.save 1]) abi 0).isSome ↔
      ∃ t, t <:+: abi ∧ MappingMatch t := by
  constructor
  · intro h
    obtain ⟨caps, hc⟩ := Option.isSome_iff_exists.mp h
    obtain ⟨i, hi⟩ := exists_matchHere_of_findAt hc
    obtain ⟨k, s₁, s₂, v, w, hs, hk, hkw, hsp, hv, hvn, -⟩ := matchHere_mapping hi
    refine ⟨_, ⟨abi.take i, w, ?_⟩, k, s₁, s₂, v, rfl, hk, hkw, hsp, hv, hvn⟩
    calc abi.take i ++ ("mapping(".toList ++ k ++ s₁ ++ "=>".toList ++ s₂ ++ v ++ [')']) ++ w
        = abi.take i ++ abi.drop i := by rw [hs]; simp
      _ = abi := List.take_append_drop i abi
  · rintro ⟨t, ⟨pre, post, rfl⟩, k, s₁, s₂, v, rfl, hk, hkw, hsp, hv, hvn⟩
    refine findAt_isSome (i := pre.length) (by simp) ?_
    have ht : (pre ++ ("mapping(".toList ++ k ++ s₁ ++ "=>".toList ++ s₂ ++ v ++ [')']) ++
        post).drop pre.length =
        "mapping(".toList ++ (k ++ (s₁ ++ '=' :: '>' :: (s₂ ++ (v ++ ')' :: post)))) := by
      simp
    rw [ht, mappingPattern_items, matchHere_save, matchHere_chars, matchHere_save]
    refine matchHere_rep_isSome hkw (List.length_pos.mpr hk) ?_
    rw [matchHere_save]
    refine matchHere_rep_isSome (fun c hc => hsp c (List.mem_append_left _ hc)) (Nat.zero_le _) ?_
    rw [matchHere_char_cons, if_pos rfl, matchHere_char_cons, if_pos rfl]
    refine matchHere_rep_isSome (fun c hc => hsp c (List.mem_append_right _ hc)) (Nat.zero_le _) ?_
    rw [matchHere_save]
    refine matchHere_rep_isSome (fun c hc => ?_) (List.length_pos.mpr hv) ?_
    · simpa using fun e : c = '\n' => hvn (e ▸ hc)
    · rw [matchHere_save, matchHere_char_cons, if_pos rfl, matchHere_save]
      rfl

theorem parseMappingType_fst (abi : List Char) :
    (parseMappingType abi).1 = (findAt ([.save 0] ++ mappingPattern ++ [.save 1]) abi 0).isSome := by
  rw [parseMappingType]
  split
  · next h =>
    unfold findStringSubmatch at h
    split at h
    · next hc => rw [hc]; split <;> rfl
    · cases h
  · next h =>
    cases hf : findAt ([.save 0] ++ mappingPattern ++ [.save 1]) abi 0 with
    | none => rfl
    | some caps => exact (h _ _ _ _ (by rw [findStringSubmatch, hf]; rfl)).elim

/-- `parseMappingType` reports success exactly when a piece of the text reads
`mapping(k s₁=>s₂ v)`: `k` a nonempty `\w` word, `s₁` and `s₂` runs of `\s`, and `v` a nonempty
text with no newline. Anything may stand before and after it. -/
theorem parseMappingType_ok_iff (abi : List Char) :
    (parseMappingType abi).1 = true ↔ ∃ t, t <:+: abi ∧ MappingMatch t := by
  rw [parseMappingType_fst, findAt_mapping_isSome]

/-! ## What the parser returns -/

theorem findStringSubmatch_mapping_groups {abi m₀ key value : List Char}
    {rest : List (List Char)}
    (h : findStringSubmatch mappingPattern 2 abi = m₀ :: key :: value :: rest) :
    (key ≠ [] ∧ (∀ c ∈ key, isWord c = true) ∧ key <:+: abi) ∧
      value ≠ [] ∧ '\n' ∉ value ∧ value <:+: abi := by
  unfold findStringSubmatch at h
  split at h
  · next caps hc =>
    simp only [List.range_succ, List.range_zero, List.nil_append, List.singleton_append,
      List.cons_append, List.map_cons, List.map_nil, List.cons.injEq] at h
    obtain ⟨-, rfl, rfl, -⟩ := h
    obtain ⟨i, hi⟩ := exists_matchHere_of_findAt hc
    obtain ⟨k, s₁, s₂, v, w, hs, hk, hkw, -, hv, hvn, h₂, h₃, h₄, h₅⟩ := matchHere_mapping hi
    have hlen : (abi.take i).length = i := by
      have := congrArg List.length hs
      simp only [List.length_drop, List.length_append, List.length_cons] at this
      rw [List.length_take]
      omega
    have habi : abi = abi.take i ++ abi.drop i := (List.take_append_drop i abi).symm
    rw [hs] at habi
    have hkey : groupText abi caps 1 = k :=
      @groupText_of_lookup abi (abi.take i ++ "mapping(".toList) k
        (s₁ ++ "=>".toList ++ s₂ ++ v ++ ')' :: w) caps 1 (habi.trans (by simp))
        (by rw [h₂]; simp [hlen]) (by rw [h₃]; simp [hlen])
    have hval : groupText abi caps 2 = v :=
      @groupText_of_lookup abi (abi.take i ++ "mapping(".toList ++ k ++ s₁ ++ "=>".toList ++ s₂) v
        (')' :: w) caps 2 (habi.trans (by simp)) (by rw [h₄]; simp [hlen]; omega)
        (by rw [h₅]; simp [hlen]; omega)
    rw [hkey, hval]
    exact ⟨⟨hk, hkw, hkey ▸ groupText_infix abi caps 1⟩, hv, hvn, hval ▸ groupText_infix abi caps 2⟩
  · cases h

/-- What `parseMappingType` returns about a text `abi`: no keys and no values when it fails, and
otherwise at least one key; every key a nonempty `\w` word of `abi`; at most one value, a
nonempty line of `abi` that does not contain `mapping`. -/
structure MappingParse (abi : List Char) (r : Bool × List (List Char) × List (List Char)) :
    Prop where
  failed : r.1 = false → r.2.1 = [] ∧ r.2.2 = []
  keys_ne_nil : r.1 = true → r.2.1 ≠ []
  keys : ∀ k ∈ r.2.1, k ≠ [] ∧ (∀ c ∈ k, isWord c = true) ∧ k <:+: abi
  values : ∀ v ∈ r.2.2, v ≠ [] ∧ '\n' ∉ v ∧ isMappingType v = false ∧ v <:+: abi
  values_length : r.2.2.length ≤ 1

/-- Whatever the text, the parser returns keys and values of the shape `MappingParse` states:
each level's key and value are what the pattern captured, and a value that contains `mapping`
is replaced by the values of its own parse, which are pieces of it. -/
theorem parseMappingType_wellFormed (abi : List Char) :
    MappingParse abi (parseMappingType abi) := by
  rw [parseMappingType]
  split
  · next _ key value _ hm =>
    obtain ⟨hk, hv, hnl, hvi⟩ := findStringSubmatch_mapping_groups hm
    split
    · next hmap =>
      have ih := parseMappingType_wellFormed value
      refine ⟨by simp, by simp, ?_, fun v hv' => ?_, ih.values_length⟩
      · rintro k (_ | ⟨_, hk'⟩)
        · exact hk
        · obtain ⟨h₁, h₂, h₃⟩ := ih.keys k hk'
          exact ⟨h₁, h₂, h₃.trans hvi⟩
      · obtain ⟨h₁, h₂, h₃, h₄⟩ := ih.values v hv'
        exact ⟨h₁, h₂, h₃, h₄.trans hvi⟩
    · next hmap =>
      refine ⟨by simp, by simp, by simpa using hk, ?_, by simp⟩
      simpa using ⟨hv, hnl, Bool.eq_false_iff.mpr hmap, hvi⟩
  · exact ⟨fun _ => ⟨rfl, rfl⟩, by simp, by simp, by simp, by simp⟩
termination_by abi.length
decreasing_by exact findStringSubmatch_mapping_length ‹_›

end Solgo
