import Mathlib.Data.List.Basic

/-!
# Go strings and regular expressions

A Go string is its list of characters. `strings.Index` with a one-character needle, slice
expressions with their run-time panic, and a backtracking matcher for the regular expressions
the source uses, with Go's leftmost-first semantics.
-/

namespace Solgo

/-! ## Strings -/

def index (s : List Char) (c : Char) : Int :=
  if c ∈ s then s.indexOf c else -1

/-- The slice expression `s[lo:hi]`; `none` is the run-time panic on bounds out of range. -/
def slice (s : List Char) (lo hi : Int) : Option (List Char) :=
  if 0 ≤ lo ∧ lo ≤ hi ∧ hi ≤ s.length then some ((s.take hi.toNat).drop lo.toNat) else none

theorem index_append_cons {pre rest : List Char} {c : Char} (h : c ∉ pre) :
    index (pre ++ c :: rest) c = pre.length := by
  simp [index, List.indexOf_append_of_not_mem h, List.indexOf_cons_self]

theorem slice_eq_some {s pre mid rest : List Char} {lo hi : Int}
    (hs : s = pre ++ mid ++ rest) (hlo : lo = pre.length) (hhi : hi = pre.length + mid.length) :
    slice s lo hi = some mid := by
  subst hs hlo hhi
  have h₁ : (pre.length : Int).toNat = pre.length := by omega
  have h₂ : ((pre.length : Int) + mid.length).toNat = (pre ++ mid).length := by
    rw [List.length_append]; omega
  simp only [slice]
  rw [if_pos (by simp only [List.length_append]; omega), h₁, h₂, List.take_left, List.drop_left]

theorem slice_eq_suffix {s pre rest : List Char} {lo : Int} (hs : s = pre ++ rest)
    (hlo : lo = pre.length) : slice s lo s.length = some rest := by
  subst hs hlo
  have h₁ : (pre.length : Int).toNat = pre.length := by omega
  have h₂ : ((pre ++ rest).length : Int).toNat = (pre ++ rest).length := by omega
  simp only [slice]
  rw [if_pos (by simp only [List.length_append]; omega), h₁, h₂, List.take_length, List.drop_left]

theorem slice_eq_none {s : List Char} {lo hi : Int} (h : hi < lo) : slice s lo hi = none := by
  simp only [slice]
  rw [if_neg (by omega)]

theorem slice_length_lt {s t : List Char} {lo : Int} (hlo : 0 < lo)
    (h : slice s lo s.length = some t) : t.length < s.length := by
  simp only [slice] at h
  split_ifs at h with hb
  cases h
  simp only [List.length_drop, List.length_take]
  omega

theorem index_nonneg {s : List Char} {c : Char} (h : c ∈ s) : 0 ≤ index s c := by
  simp only [index, if_pos h]
  omega

theorem exists_first {a : Char} : ∀ {l : List Char}, a ∈ l → ∃ s t, l = s ++ a :: t ∧ a ∉ s
  | [], h => by simp at h
  | b :: l, h => by
    by_cases hb : b = a
    · exact ⟨[], l, by simp [hb], by simp⟩
    · obtain ⟨s, t, rfl, hs⟩ := exists_first (List.mem_of_ne_of_mem (Ne.symm hb) h)
      exact ⟨b :: s, t, rfl, by simp [hs, Ne.symm hb]⟩

/-! ## Character classes -/

def isDigit (c : Char) : Bool := c.isDigit

def isWord (c : Char) : Bool := c.isAlphanum || c == '_'

def isSpace (c : Char) : Bool :=
  c == '\t' || c == '\n' || c == '\x0c' || c == '\r' || c == ' '

/-! ## The matcher -/

inductive Item
  | char (c : Char)
  | rep (p : Char → Bool) (lo : Nat)
  | save (slot : Nat)

def firstDown {α : Type} (f : Nat → Option α) (lo : Nat) : Nat → Option α
  | 0 => if lo = 0 then f 0 else none
  | n + 1 =>
    if lo ≤ n + 1 then
      match f (n + 1) with
      | some r => some r
      | none => firstDown f lo n
    else none

/-- The backtracking match of `ps` at the front of `s`, which starts at position `pos` of the
subject. `caps` holds the saved slots, the latest first. -/
def matchHere : List Item → List Char → Nat → List (Nat × Nat) → Option (List (Nat × Nat))
  | [], _, _, caps => some caps
  | .char c :: ps, s, pos, caps =>
    match s with
    | x :: xs => if x = c then matchHere ps xs (pos + 1) caps else none
    | [] => none
  | .rep p lo :: ps, s, pos, caps =>
    firstDown (fun i => matchHere ps (s.drop i) (pos + i) caps) lo (s.takeWhile p).length
  | .save k :: ps, s, pos, caps => matchHere ps s pos ((k, pos) :: caps)

def findAt (ps : List Item) : List Char → Nat → Option (List (Nat × Nat))
  | [], pos => matchHere ps [] pos []
  | x :: xs, pos =>
    match matchHere ps (x :: xs) pos [] with
    | some caps => some caps
    | none => findAt ps xs (pos + 1)

def matchString (ps : List Item) (s : List Char) : Bool := (findAt ps s 0).isSome

def groupText (s : List Char) (caps : List (Nat × Nat)) (k : Nat) : List Char :=
  match caps.lookup (2 * k), caps.lookup (2 * k + 1) with
  | some a, some b => (s.take b).drop a
  | _, _ => []

/-- Go's `FindStringSubmatch`: the leftmost match and the texts of its `groups` capture groups, or
the empty slice when nothing matches. Group 0, the whole match, is implicit in Go. -/
def findStringSubmatch (ps : List Item) (groups : Nat) (s : List Char) : List (List Char) :=
  match findAt ([.save 0] ++ ps ++ [.save 1]) s 0 with
  | some caps => (List.range (groups + 1)).map (groupText s caps)
  | none => []

theorem matchHere_char_cons (c x : Char) (ps : List Item) (xs : List Char) (pos : Nat)
    (caps : List (Nat × Nat)) :
    matchHere (.char c :: ps) (x :: xs) pos caps =
      if x = c then matchHere ps xs (pos + 1) caps else none := rfl

theorem matchHere_char_nil (c : Char) (ps : List Item) (pos : Nat) (caps : List (Nat × Nat)) :
    matchHere (.char c :: ps) [] pos caps = none := rfl

theorem matchHere_save (k : Nat) (ps : List Item) (s : List Char) (pos : Nat)
    (caps : List (Nat × Nat)) :
    matchHere (.save k :: ps) s pos caps = matchHere ps s pos ((k, pos) :: caps) := rfl

/-! ## Repetitions -/

section
variable {α : Type} {f : Nat → Option α} {lo : Nat}

theorem firstDown_of_some {n : Nat} {r : α} (hlo : lo ≤ n) (h : f n = some r) :
    firstDown f lo n = some r := by
  cases n with
  | zero => simp [firstDown, show lo = 0 by omega, h]
  | succ n => simp [firstDown, hlo, h]

theorem firstDown_succ_of_none {n : Nat} (hlo : lo ≤ n) (h : f (n + 1) = none) :
    firstDown f lo (n + 1) = firstDown f lo n := by
  simp [firstDown, show lo ≤ n + 1 by omega, h]

theorem exists_of_firstDown {r : α} :
    ∀ {n : Nat}, firstDown f lo n = some r → ∃ i, lo ≤ i ∧ i ≤ n ∧ f i = some r
  | 0, h => by
    simp only [firstDown] at h
    split_ifs at h with h₀
    exact ⟨0, h₀.le, le_rfl, h⟩
  | n + 1, h => by
    simp only [firstDown] at h
    split_ifs at h with hlo
    split at h
    · next r' hr => cases h; exact ⟨n + 1, hlo, le_rfl, hr⟩
    · obtain ⟨i, h₁, h₂, hi⟩ := exists_of_firstDown h
      exact ⟨i, h₁, by omega, hi⟩

theorem firstDown_of_lt {n : Nat} (h : ∀ i < n, f i = none) :
    firstDown f lo n = if lo ≤ n then f n else none := by
  induction n with
  | zero => simp [firstDown]
  | succ n ih =>
    simp only [firstDown]
    split_ifs
    · cases f (n + 1) <;> simp [ih fun i hi => h i (by omega), h n (by omega)]
    · rfl

theorem firstDown_isSome {j : Nat} (h₁ : lo ≤ j) (h : (f j).isSome) :
    ∀ {n : Nat}, j ≤ n → (firstDown f lo n).isSome
  | 0, hn => by
    obtain rfl : j = 0 := by omega
    simp [firstDown, show lo = 0 by omega, h]
  | n + 1, hn => by
    simp only [firstDown, if_pos (show lo ≤ n + 1 by omega)]
    split
    · rfl
    · next hf =>
      rcases Nat.lt_or_ge j (n + 1) with hj | hj
      · exact firstDown_isSome h₁ h (by omega)
      · obtain rfl : j = n + 1 := by omega
        simp [hf] at h
end

theorem drop_of_lt_takeWhile {p : Char → Bool} :
    ∀ {s : List Char} {i : Nat}, i < (s.takeWhile p).length →
      ∃ x xs, s.drop i = x :: xs ∧ p x = true
  | [], _, h => by simp at h
  | x :: s, i, h => by
    by_cases hx : p x = true
    · cases i with
      | zero => exact ⟨x, s, rfl, hx⟩
      | succ i =>
        rw [List.takeWhile_cons_of_pos hx, List.length_cons] at h
        exact drop_of_lt_takeWhile (s := s) (by omega)
    · simp [List.takeWhile_cons_of_neg hx] at h

theorem matchHere_rep_stop {p : Char → Bool} {lo : Nat} {ps : List Item}
    (hstop : ∀ x xs pos caps, p x = true → matchHere ps (x :: xs) pos caps = none)
    (s : List Char) (pos : Nat) (caps : List (Nat × Nat)) :
    matchHere (.rep p lo :: ps) s pos caps =
      if lo ≤ (s.takeWhile p).length then
        matchHere ps (s.drop (s.takeWhile p).length) (pos + (s.takeWhile p).length) caps
      else none := by
  rw [matchHere, firstDown_of_lt]
  intro i hi
  obtain ⟨x, xs, hd, hx⟩ := drop_of_lt_takeWhile hi
  simp only [hd, hstop x xs _ caps hx]

theorem matchHere_rep_max {p : Char → Bool} {lo : Nat} {ps : List Item} {s : List Char}
    {pos : Nat} {caps r : List (Nat × Nat)} (hlo : lo ≤ (s.takeWhile p).length)
    (h : matchHere ps (s.drop (s.takeWhile p).length) (pos + (s.takeWhile p).length) caps =
      some r) :
    matchHere (.rep p lo :: ps) s pos caps = some r :=
  firstDown_of_some hlo h

/-! ## Where matches come from -/

theorem mem_of_matchHere {c : Char} :
    ∀ {ps : List Item} {s : List Char} {pos : Nat} {caps r : List (Nat × Nat)},
      matchHere ps s pos caps = some r → .char c ∈ ps → c ∈ s
  | [], _, _, _, _, _, hc => by simp at hc
  | .char d :: ps, s, pos, caps, r, h, hc => by
    cases s with
    | nil => simp [matchHere] at h
    | cons x xs =>
      simp only [matchHere] at h
      split_ifs at h with hx
      rcases List.mem_cons.mp hc with he | he
      · cases he; simp [hx]
      · exact List.mem_cons_of_mem _ (mem_of_matchHere h he)
  | .rep p lo :: ps, s, pos, caps, r, h, hc => by
    rw [matchHere] at h
    obtain ⟨i, -, -, hi⟩ := exists_of_firstDown h
    exact List.mem_of_mem_drop (mem_of_matchHere hi (by simpa using hc))
  | .save k :: ps, s, pos, caps, r, h, hc => by
    simp only [matchHere] at h
    exact mem_of_matchHere h (by simpa using hc)

theorem exists_matchHere_of_findAt {ps : List Item} :
    ∀ {s : List Char} {pos : Nat} {r : List (Nat × Nat)}, findAt ps s pos = some r →
      ∃ i, matchHere ps (s.drop i) (pos + i) [] = some r
  | [], pos, r, h => ⟨0, by simpa [findAt] using h⟩
  | x :: xs, pos, r, h => by
    rw [findAt] at h
    split at h
    · next r' hr => cases h; exact ⟨0, by simpa using hr⟩
    · obtain ⟨i, hi⟩ := exists_matchHere_of_findAt h
      exact ⟨i + 1, by simpa [Nat.add_assoc, Nat.add_comm 1 i] using hi⟩

theorem mem_of_matchString {ps : List Item} {s : List Char} {c : Char}
    (h : matchString ps s = true) (hc : .char c ∈ ps) : c ∈ s := by
  obtain ⟨r, hr⟩ := Option.isSome_iff_exists.mp h
  obtain ⟨i, hi⟩ := exists_matchHere_of_findAt hr
  exact List.mem_of_mem_drop (mem_of_matchHere hi hc)

theorem findAt_of_matchHere {ps : List Item} {s : List Char} {pos : Nat} {r : List (Nat × Nat)}
    (h : matchHere ps s pos [] = some r) : findAt ps s pos = some r := by
  cases s with
  | nil => simpa [findAt] using h
  | cons x xs => simp [findAt, h]

theorem findAt_cons_isSome (ps : List Item) (x : Char) (xs : List Char) (pos : Nat) :
    (findAt ps (x :: xs) pos).isSome =
      ((matchHere ps (x :: xs) pos []).isSome || (findAt ps xs (pos + 1)).isSome) := by
  rw [findAt]
  split <;> simp_all

theorem findAt_eq_none_of_not_mem {ps : List Item} {s : List Char} {pos : Nat} {c : Char}
    (hc : .char c ∈ ps) (h : c ∉ s) : findAt ps s pos = none := by
  cases hf : findAt ps s pos with
  | none => rfl
  | some r =>
    obtain ⟨i, hi⟩ := exists_matchHere_of_findAt hf
    exact absurd (List.mem_of_mem_drop (mem_of_matchHere hi hc)) h

theorem matchHere_chars (w : List Char) (ps : List Item) (xs : List Char) (pos : Nat)
    (caps : List (Nat × Nat)) :
    matchHere (w.map .char ++ ps) (w ++ xs) pos caps = matchHere ps xs (pos + w.length) caps := by
  induction w generalizing pos with
  | nil => rfl
  | cons c w ih =>
    rw [List.map_cons, List.cons_append, List.cons_append, matchHere_char_cons, if_pos rfl, ih]
    simp only [List.length_cons]
    congr 1
    omega

/-! ## Capture slots -/

theorem matchHere_caps :
    ∀ {ps : List Item} {s : List Char} {pos : Nat} {caps r : List (Nat × Nat)},
      matchHere ps s pos caps = some r → ∃ new, r = new ++ caps ∧ ∀ e ∈ new, pos ≤ e.2
  | [], _, _, _, _, h => ⟨[], by simpa [matchHere] using h.symm, by simp⟩
  | .char c :: ps, s, pos, caps, r, h => by
    cases s with
    | nil => simp [matchHere_char_nil] at h
    | cons x xs =>
      rw [matchHere_char_cons] at h
      split_ifs at h
      obtain ⟨new, rfl, hn⟩ := matchHere_caps h
      exact ⟨new, rfl, fun e he => by have := hn e he; omega⟩
  | .rep p lo :: ps, s, pos, caps, r, h => by
    rw [matchHere] at h
    obtain ⟨i, -, -, hi⟩ := exists_of_firstDown h
    obtain ⟨new, rfl, hn⟩ := matchHere_caps hi
    exact ⟨new, rfl, fun e he => by have := hn e he; omega⟩
  | .save k :: ps, s, pos, caps, r, h => by
    rw [matchHere_save] at h
    obtain ⟨new, rfl, hn⟩ := matchHere_caps h
    refine ⟨new ++ [(k, pos)], by simp, fun e he => ?_⟩
    rcases List.mem_append.mp he with he | he
    · exact hn e he
    · simp at he; simp [he]

theorem groupText_length_lt {c : Char} {ps : List Item} {s : List Char}
    {caps : List (Nat × Nat)} (h : findAt ([.save 0] ++ (.char c :: ps) ++ [.save 1]) s 0 = some caps)
    {k : Nat} (hk : 1 ≤ k) : (groupText s caps k).length < s.length := by
  obtain ⟨i, hi⟩ := exists_matchHere_of_findAt h
  simp only [List.singleton_append, List.cons_append, List.nil_append] at hi
  rw [matchHere_save] at hi
  cases hs : s.drop i with
  | nil => rw [hs, matchHere_char_nil] at hi; cases hi
  | cons x xs =>
    rw [hs, matchHere_char_cons] at hi
    split_ifs at hi
    obtain ⟨new, rfl, hn⟩ := matchHere_caps hi
    have hlen : i < s.length := by
      have := congrArg List.length hs
      simp only [List.length_drop, List.length_cons] at this
      omega
    unfold groupText
    split
    · next a b ha hb =>
      obtain ⟨l₁, l₂, heq, -⟩ := List.lookup_eq_some_iff.mp ha
      have hmem : (2 * k, a) ∈ new := by
        have : (2 * k, a) ∈ new ++ [(0, 0 + i)] := by rw [heq]; simp
        simpa [show 2 * k ≠ 0 by omega] using this
      have := hn _ hmem
      simp only [List.length_drop, List.length_take]
      omega
    · simp only [List.length_nil]
      omega

/-! ## Reading a match back

A successful match splits the text it reads: a literal character is the next one, and a
repetition reads a run of its class, at least as long as its lower bound. -/

theorem matchHere_char_split {c : Char} {ps : List Item} {s : List Char} {pos : Nat}
    {caps r : List (Nat × Nat)} (h : matchHere (.char c :: ps) s pos caps = some r) :
    ∃ w, s = c :: w ∧ matchHere ps w (pos + 1) caps = some r := by
  cases s with
  | nil => cases h
  | cons x xs =>
    rw [matchHere_char_cons] at h
    split_ifs at h with hx
    exact ⟨xs, hx ▸ rfl, h⟩

theorem matchHere_chars_split (u : List Char) {ps : List Item} {s : List Char} {pos : Nat}
    {caps r : List (Nat × Nat)} (h : matchHere (u.map .char ++ ps) s pos caps = some r) :
    ∃ w, s = u ++ w ∧ matchHere ps w (pos + u.length) caps = some r := by
  induction u generalizing s pos with
  | nil => exact ⟨s, rfl, h⟩
  | cons c u ih =>
    obtain ⟨w, rfl, hw⟩ := matchHere_char_split h
    obtain ⟨t, rfl, ht⟩ := ih hw
    exact ⟨t, rfl, by rwa [List.length_cons, Nat.add_comm u.length 1, ← Nat.add_assoc]⟩

theorem take_of_le_takeWhile {p : Char → Bool} {s : List Char} {j : Nat}
    (h : j ≤ (s.takeWhile p).length) : (s.take j).length = j ∧ ∀ c ∈ s.take j, p c = true := by
  have hpre : (s.takeWhile p).take j = s.take j := by
    rw [List.prefix_iff_eq_take.mp (List.takeWhile_prefix p), List.take_take, min_eq_left h]
  have hle := (List.takeWhile_prefix p (l := s)).length_le
  refine ⟨by rw [List.length_take]; omega, fun c hc => ?_⟩
  rw [← hpre] at hc
  exact List.mem_takeWhile_imp (List.mem_of_mem_take hc)

theorem matchHere_rep_split {p : Char → Bool} {lo : Nat} {ps : List Item} {s : List Char}
    {pos : Nat} {caps r : List (Nat × Nat)} (h : matchHere (.rep p lo :: ps) s pos caps = some r) :
    ∃ u w, s = u ++ w ∧ lo ≤ u.length ∧ (∀ c ∈ u, p c = true) ∧
      matchHere ps w (pos + u.length) caps = some r := by
  rw [matchHere] at h
  obtain ⟨j, h₁, h₂, hj⟩ := exists_of_firstDown h
  obtain ⟨hl, hp⟩ := take_of_le_takeWhile h₂
  exact ⟨s.take j, s.drop j, (List.take_append_drop j s).symm, by rwa [hl], hp, by rwa [hl]⟩

theorem matchHere_rep_isSome {p : Char → Bool} {lo : Nat} {ps : List Item} {u w : List Char}
    {pos : Nat} {caps : List (Nat × Nat)} (hu : ∀ c ∈ u, p c = true) (hlo : lo ≤ u.length)
    (h : (matchHere ps w (pos + u.length) caps).isSome) :
    (matchHere (.rep p lo :: ps) (u ++ w) pos caps).isSome := by
  rw [matchHere]
  refine firstDown_isSome hlo (by rwa [List.drop_left]) ?_
  rw [List.takeWhile_append_of_pos hu, List.length_append]
  omega

theorem findAt_isSome {ps : List Item} :
    ∀ {s : List Char} {pos i : Nat}, i ≤ s.length →
      (matchHere ps (s.drop i) (pos + i) []).isSome → (findAt ps s pos).isSome
  | [], _, i, hi, h => by
    obtain rfl : i = 0 := by simpa using hi
    simpa [findAt] using h
  | x :: xs, pos, 0, _, h => by
    rw [findAt_cons_isSome]
    simp only [List.drop_zero, Nat.add_zero] at h
    simp [h]
  | x :: xs, pos, i + 1, hi, h => by
    rw [findAt_cons_isSome, @findAt_isSome ps xs (pos + 1) i
      (by simp only [List.length_cons] at hi; omega)
      (by rwa [Nat.add_assoc, Nat.add_comm 1 i])]
    simp

theorem groupText_infix (s : List Char) (caps : List (Nat × Nat)) (k : Nat) :
    groupText s caps k <:+: s := by
  unfold groupText
  split
  · exact (List.drop_suffix _ _).isInfix.trans (List.take_prefix _ _).isInfix
  · exact List.nil_infix

end Solgo
