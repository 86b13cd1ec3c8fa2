import Mathlib.Data.Nat.Notation
import Mathlib.Tactic.SplitIfs

/-!
# The words of a shell line

What a line of the shell means, and what the scanner of `app_parse_char.c` makes of it, both on
the bytes of the line. In the grammar a word that starts with a quote goes up to the closing quote,
and a backslash escapes the byte behind it; any other word goes up to a blank. The scanner takes
the byte behind an escaped quote as it is, and has no end of the line behind a backslash.
`scanWords_spec` says which lines the scanner splits by the grammar.
-/

namespace TlBleSdk.Eslp

/-! ## The grammar -/

/-- The blank and the tabulator. -/
def isBlank (c : UInt8) : Bool := c == 0x20 || c == 0x09

/-- `'"'`. -/
def quote : UInt8 := 0x22

/-- `'\\'`. -/
def backslash : UInt8 := 0x5C

/-- Where a line is read: between the words, or behind the part `cur` of a word. -/
inductive WordState
  | between
  | bare (cur : List UInt8)
  | quoted (cur : List UInt8)
  | escaped (cur : List UInt8)

/-- The words of the rest of a line. The quotes around a word are not part of it. -/
def wordsFrom : WordState → List UInt8 → List (List UInt8)
  | .between, [] => []
  | .bare cur, [] => [cur]
  | .quoted cur, [] => [cur]
  | .escaped cur, [] => [cur]
  | .between, c :: s =>
    if isBlank c then wordsFrom .between s
    else if c = quote then wordsFrom (.quoted []) s
    else wordsFrom (.bare [c]) s
  | .bare cur, c :: s =>
    if isBlank c then cur :: wordsFrom .between s else wordsFrom (.bare (cur ++ [c])) s
  | .quoted cur, c :: s =>
    if c = quote then cur :: wordsFrom .between s
    else if c = backslash then wordsFrom (.escaped (cur ++ [c])) s
    else wordsFrom (.quoted (cur ++ [c])) s
  | .escaped cur, c :: s => wordsFrom (.quoted (cur ++ [c])) s

/-- The words of a line. -/
def lineWords (line : List UInt8) : List (List UInt8) := wordsFrom .between line

/-! ## The scanner -/

/-- Where an iteration of the scanner is: at its start, behind a backslash, or behind an escaped
quote. -/
inductive ScanState
  | start
  | escape
  | escapedQuote
deriving DecidableEq

/-- The byte ends a word. -/
def endsWord (isQuoted : Bool) (c : UInt8) : Bool := if isQuoted then c == quote else isBlank c

/-- The rest of a word, and what is behind the byte that ends it. There is no such byte at the end
of the line, and no result where the scanner goes on behind it. -/
def scanWord (isQuoted : Bool) : ScanState → List UInt8 → Option (List UInt8 × Option (List UInt8))
  | .start, [] => some ([], none)
  | .escape, [] => none
  | .escapedQuote, [] => none
  | .start, c :: s =>
    if c = backslash then (scanWord isQuoted .escape s).map (Prod.map (c :: ·) id)
    else if endsWord isQuoted c then some ([], some s)
    else (scanWord isQuoted .start s).map (Prod.map (c :: ·) id)
  | .escape, c :: s =>
    if c = quote then (scanWord isQuoted .escapedQuote s).map (Prod.map (c :: ·) id)
    else if endsWord isQuoted c then some ([], some s)
    else (scanWord isQuoted .start s).map (Prod.map (c :: ·) id)
  | .escapedQuote, c :: s =>
    if endsWord isQuoted c then some ([], some s)
    else (scanWord isQuoted .start s).map (Prod.map (c :: ·) id)

/-- A word from its first byte on, without an opening quote. -/
def scanFirst : List UInt8 → Option (List UInt8 × Option (List UInt8))
  | [] => none
  | c :: s => if c = quote then scanWord true .start s else scanWord false .start (c :: s)

/-- The words of a line that starts with one, for `room` words. Behind the last of them `none`
says that there are too many. -/
def scanWords : ℕ → List UInt8 → Option (Option (List (List UInt8)))
  | 0, _ => some none
  | room + 1, s =>
    match scanFirst s with
    | none => none
    | some (w, none) => some (some [w])
    | some (w, some rest) =>
      match rest.dropWhile isBlank with
      | [] => some (some [w])
      | c :: s => (scanWords room (c :: s)).map (Option.map (w :: ·))

/-! ## The lines that are split by the grammar -/

/-- How far escapes go: behind a backslash that escapes, right behind an escaped quote, and behind
an odd or an even number of backslashes that follow one. -/
inductive Escapes
  | plain
  | escape
  | escapedQuote
  | odd
  | even
deriving DecidableEq

namespace Escapes

/-- Behind the next byte of a word. -/
def next : Escapes → UInt8 → Escapes
  | plain, c => if c = backslash then escape else plain
  | escape, c => if c = quote then escapedQuote else plain
  | escapedQuote, c => if c = backslash then odd else plain
  | odd, c => if c = backslash then even else plain
  | even, c => if c = quote then escapedQuote else if c = backslash then odd else plain

/-- A word ends with the byte. -/
def ends (isQuoted : Bool) (e : Escapes) (c : UInt8) : Bool :=
  if isQuoted then c == quote && e != escape else isBlank c

end Escapes

/-- In the first `n` words of the rest of a line, no quoted one has an escaped quote, backslashes
and then a quote, and the line does not end behind a backslash that escapes or right behind an
escaped quote. Inside of a word, the second argument tells whether it is quoted. -/
def regular : ℕ → Option (Bool × Escapes) → List UInt8 → Bool
  | _, none, [] => true
  | _, some (_, e), [] => e == .plain || e == .odd
  | n, none, c :: s =>
    if isBlank c then regular n none s
    else
      match n with
      | 0 => true
      | n + 1 =>
        if c = quote then regular n (some (true, .plain)) s
        else regular n (some (false, Escapes.plain.next c)) s
  | n, some (isQuoted, e), c :: s =>
    if isQuoted && c == quote && (e == .odd || e == .even) then false
    else if e.ends isQuoted c then regular n none s
    else regular n (some (isQuoted, e.next c)) s

/-! ## One word -/

namespace Escapes

/-- Where the scanner is. -/
def scan : Escapes → ScanState
  | plain => .start
  | escape => .escape
  | escapedQuote => .escapedQuote
  | odd => .start
  | even => .escape

/-- Where the grammar is. -/
def state (isQuoted : Bool) (e : Escapes) (cur : List UInt8) : WordState :=
  if isQuoted then if e = escape ∨ e = odd then .escaped cur else .quoted cur else .bare cur

end Escapes

/-- What a word is for the scanner, the words of the grammar from there on, and whether the line is
regular there: the scanner goes on behind the line, or both take the same word, or they differ in
it. -/
inductive WordCase (n : ℕ) (cur : List UInt8) :
    Option (List UInt8 × Option (List UInt8)) → List (List UInt8) → Bool → Prop
  | leaves {ws} : WordCase n cur none ws false
  | last {w} : WordCase n cur (some (w, none)) [cur ++ w] true
  | next {w rest} : WordCase n cur (some (w, some rest)) ((cur ++ w) :: wordsFrom .between rest)
      (regular n none rest)
  | differ {w rest ws} (h : ws.head? ≠ some (cur ++ w)) : WordCase n cur (some (w, rest)) ws false

section

variable {n : ℕ} {cur : List UInt8} {c : UInt8}

/-- A byte of the word is in front of it. -/
theorem WordCase.cons {x : Option (List UInt8 × Option (List UInt8))} {ws : List (List UInt8)}
    {b : Bool} (h : WordCase n (cur ++ [c]) x ws b) :
    WordCase n cur (x.map (Prod.map (c :: ·) id)) ws b := by
  have happend (w : List UInt8) : cur ++ [c] ++ w = cur ++ c :: w := by simp
  cases h with
  | leaves => exact .leaves
  | last =>
    rw [happend]
    exact .last
  | next =>
    rw [happend]
    exact .next
  | differ h =>
    rw [happend] at h
    exact .differ h

theorem ne_of_isBlank (h : isBlank c = true) : c ≠ backslash ∧ c ≠ quote := by
  constructor
  · rintro rfl
    exact absurd h (by decide)
  · rintro rfl
    exact absurd h (by decide)

theorem quote_ne_backslash : quote ≠ backslash := by decide

variable {isQuoted : Bool} {e : Escapes} {s : List UInt8}

/-- A byte of a word behind which the scanner is where it should be. -/
theorem scanWord_of_not_ends (h : e.ends isQuoted c = false) :
    scanWord isQuoted e.scan (c :: s) =
      (scanWord isQuoted (e.next c).scan s).map (Prod.map (c :: ·) id) := by
  cases isQuoted with
  | false =>
    by_cases hback : c = backslash <;> by_cases hquote : c = quote <;> cases e <;>
      simp_all [Escapes.ends, Escapes.scan, Escapes.next, scanWord, endsWord]
  | true =>
    by_cases hback : c = backslash <;> by_cases hquote : c = quote <;> cases e <;>
      simp_all [Escapes.ends, Escapes.scan, Escapes.next, scanWord, endsWord]

/-- The byte that ends a word. -/
theorem scanWord_of_ends (h : e.ends isQuoted c = true)
    (hregular : ¬ (isQuoted = true ∧ (e = .odd ∨ e = .even))) :
    scanWord isQuoted e.scan (c :: s) = some ([], some s) := by
  cases isQuoted with
  | false =>
    obtain ⟨hback, hquote⟩ := ne_of_isBlank h
    cases e <;> simp_all [Escapes.ends, Escapes.scan, scanWord, endsWord]
  | true =>
    have hne := quote_ne_backslash
    cases e <;> simp_all [Escapes.ends, Escapes.scan, scanWord, endsWord]

theorem wordsFrom_of_not_ends (h : e.ends isQuoted c = false) (cur : List UInt8) :
    wordsFrom (e.state isQuoted cur) (c :: s) =
      wordsFrom ((e.next c).state isQuoted (cur ++ [c])) s := by
  cases isQuoted with
  | false => simp_all [Escapes.ends, Escapes.state, wordsFrom]
  | true =>
    by_cases hback : c = backslash <;> by_cases hquote : c = quote <;> cases e <;>
      simp_all [Escapes.ends, Escapes.state, Escapes.next, wordsFrom]

theorem wordsFrom_of_ends (h : e.ends isQuoted c = true)
    (hregular : ¬ (isQuoted = true ∧ (e = .odd ∨ e = .even))) (cur : List UInt8) :
    wordsFrom (e.state isQuoted cur) (c :: s) = cur :: wordsFrom .between s := by
  cases isQuoted with
  | false => simp_all [Escapes.ends, Escapes.state, wordsFrom]
  | true => cases e <;> simp_all [Escapes.ends, Escapes.state, wordsFrom]

/-- A quoted word goes on with what was read of it. -/
theorem exists_wordsFrom (st : List UInt8 → WordState) (hst : st = .quoted ∨ st = .escaped)
    (cur s : List UInt8) : ∃ w ws, wordsFrom (st cur) s = (cur ++ w) :: ws := by
  induction s generalizing st cur with
  | nil => rcases hst with rfl | rfl <;> exact ⟨[], [], by simp [wordsFrom]⟩
  | cons c s ih =>
    -- a byte that is part of the word
    have hpass (st' : List UInt8 → WordState) (hst' : st' = .quoted ∨ st' = .escaped) :
        ∃ w ws, wordsFrom (st' (cur ++ [c])) s = (cur ++ w) :: ws := by
      obtain ⟨w, ws, h⟩ := ih st' hst' (cur ++ [c])
      exact ⟨c :: w, ws, by simp [h]⟩
    rcases hst with rfl | rfl
    · rw [wordsFrom]
      split_ifs
      · exact ⟨[], wordsFrom .between s, by simp⟩
      · exact hpass _ (.inr rfl)
      · exact hpass _ (.inl rfl)
    · exact hpass _ (.inl rfl)

/-- An escaped quote, backslashes and a quote: the scanner and the grammar differ in whether this
quote ends the word. -/
theorem wordCase_irregular (n : ℕ) (he : e = .odd ∨ e = .even) (cur s : List UInt8) :
    WordCase n cur (scanWord true e.scan (quote :: s)) (wordsFrom (e.state true cur) (quote :: s))
      false := by
  have hne := quote_ne_backslash
  rcases he with rfl | rfl
  -- the quote ends the word of the scanner only
  · have hscan : scanWord true Escapes.odd.scan (quote :: s) = some ([], some s) := by
      simp [Escapes.scan, scanWord, endsWord, hne]
    rw [hscan]
    obtain ⟨w, ws, h⟩ := exists_wordsFrom .quoted (.inl rfl) (cur ++ [quote]) s
    refine .differ ?_
    have hwords : wordsFrom (Escapes.odd.state true cur) (quote :: s) =
      (cur ++ [quote] ++ w) :: ws := h
    rw [hwords]
    simp
  -- the quote ends the word of the grammar only
  · have hscan : scanWord true Escapes.even.scan (quote :: s) =
        (scanWord true .escapedQuote s).map (Prod.map (quote :: ·) id) := by
      simp [Escapes.scan, scanWord]
    have hwords : wordsFrom (Escapes.even.state true cur) (quote :: s) =
        cur :: wordsFrom .between s := by
      simp [Escapes.state, wordsFrom]
    rw [hscan, hwords]
    cases scanWord true .escapedQuote s with
    | none => exact .leaves
    | some r =>
      refine .differ ?_
      simp

/-- The rest of a word. -/
theorem wordCase (n : ℕ) (isQuoted : Bool) (e : Escapes) (cur s : List UInt8) :
    WordCase n cur (scanWord isQuoted e.scan s) (wordsFrom (e.state isQuoted cur) s)
      (regular n (some (isQuoted, e)) s) := by
  induction s generalizing e cur with
  | nil =>
    have hlast := @WordCase.last n cur []
    rw [List.append_nil] at hlast
    cases isQuoted <;> cases e <;> first | exact hlast | exact .leaves
  | cons c s ih =>
    rw [regular]
    by_cases hirr : isQuoted = true ∧ c = quote ∧ (e = .odd ∨ e = .even)
    · obtain ⟨rfl, rfl, he⟩ := hirr
      rw [if_pos (by simpa using he)]
      exact wordCase_irregular n he cur s
    rw [if_neg (by simpa [and_assoc] using hirr)]
    -- any other byte is the same for both: it ends the word, or is a part of it
    by_cases hends : e.ends isQuoted c = true
    · have hregular : ¬ (isQuoted = true ∧ (e = .odd ∨ e = .even)) := by
        rintro ⟨rfl, he⟩
        refine hirr ⟨rfl, ?_, he⟩
        simp only [Escapes.ends, if_true, Bool.and_eq_true, beq_iff_eq] at hends
        exact hends.1
      have hnext := @WordCase.next n cur [] s
      rw [List.append_nil] at hnext
      rwa [if_pos hends, scanWord_of_ends hends hregular, wordsFrom_of_ends hends hregular]
    · rw [if_neg hends]
      rw [Bool.not_eq_true] at hends
      rw [scanWord_of_not_ends hends, wordsFrom_of_not_ends hends]
      exact (ih (e.next c) (cur ++ [c])).cons

end

/-! ## The line -/

section

variable {c : UInt8} {s : List UInt8}

theorem wordsFrom_dropWhile (s : List UInt8) :
    wordsFrom .between (s.dropWhile isBlank) = wordsFrom .between s := by
  induction s with
  | nil => rfl
  | cons c s ih =>
    rw [List.dropWhile_cons]
    split_ifs with hc
    · rw [ih, wordsFrom, if_pos hc]
    · rfl

theorem regular_blank (n : ℕ) (hc : isBlank c = true) :
    regular n none (c :: s) = regular n none s := by
  cases n <;> rw [regular, if_pos hc]

theorem regular_dropWhile (n : ℕ) (s : List UInt8) :
    regular n none (s.dropWhile isBlank) = regular n none s := by
  induction s with
  | nil => rfl
  | cons c s ih =>
    rw [List.dropWhile_cons]
    split_ifs with hc
    · rw [ih, regular_blank n hc]
    · rfl

theorem isBlank_of_dropWhile {t : List UInt8} (h : s.dropWhile isBlank = c :: t) :
    isBlank c = false := by
  have hhead := List.head_dropWhile_not isBlank (l := s) (by simp [h])
  simpa [h] using hhead

/-- The first word of a line that starts with one. -/
theorem firstCase (n : ℕ) (hc : isBlank c = false) :
    WordCase n [] (scanFirst (c :: s)) (lineWords (c :: s)) (regular (n + 1) none (c :: s)) := by
  have hblank : ¬ isBlank c = true := by simp [hc]
  rw [scanFirst, lineWords, wordsFrom, if_neg hblank, regular, if_neg hblank]
  split_ifs with hquote
  · exact wordCase n true .plain [] s
  · have hends : Escapes.plain.ends false c = false := hc
    have h := wordCase n false .plain [] (c :: s)
    rw [wordsFrom_of_not_ends hends, regular, hends] at h
    exact h

/-- A word that was begun is one of the line. -/
theorem wordsFrom_ne_nil (st : WordState) (hst : st ≠ .between) (s : List UInt8) :
    wordsFrom st s ≠ [] := by
  induction s generalizing st with
  | nil => cases st <;> simp_all [wordsFrom]
  | cons c s ih =>
    cases st with
    | between => exact absurd rfl hst
    | bare cur =>
      rw [wordsFrom]
      split_ifs
      · exact List.cons_ne_nil _ _
      · exact ih _ nofun
    | quoted cur =>
      rw [wordsFrom]
      split_ifs
      · exact List.cons_ne_nil _ _
      · exact ih _ nofun
      · exact ih _ nofun
    | escaped cur => exact ih _ nofun

theorem lineWords_ne_nil (hc : isBlank c = false) : lineWords (c :: s) ≠ [] := by
  have hblank : ¬ isBlank c = true := by simp [hc]
  rw [lineWords, wordsFrom, if_neg hblank]
  split_ifs
  · exact wordsFrom_ne_nil (.quoted []) nofun s
  · exact wordsFrom_ne_nil (.bare [c]) nofun s

/-- What the scanner finds starts with its first word. -/
theorem head_of_scanWords {room : ℕ} {w : List UInt8} {rest : Option (List UInt8)}
    {ws : List (List UInt8)} (hfirst : scanFirst s = some (w, rest))
    (h : scanWords (room + 1) s = some (some ws)) : ws.head? = some w := by
  rw [scanWords, hfirst] at h
  rcases rest with _ | rest
  · cases h
    rfl
  · dsimp only at h
    cases hrest : rest.dropWhile isBlank with
    | nil =>
      rw [hrest] at h
      cases h
      rfl
    | cons c t =>
      rw [hrest] at h
      simp only [Option.map_eq_some_iff] at h
      obtain ⟨_, -, ws', -, rfl⟩ := h
      rfl

/-- The scanner finds the words of a regular line, if there is room for them, and never those of a
line that is not regular. -/
theorem scanWords_spec (room : ℕ) (hc : isBlank c = false) :
    (regular room none (c :: s) = true → scanWords room (c :: s) =
        some (if (lineWords (c :: s)).length ≤ room then some (lineWords (c :: s)) else none)) ∧
      (regular room none (c :: s) = false →
        scanWords room (c :: s) ≠ some (some (lineWords (c :: s)))) := by
  induction room generalizing c s with
  | zero =>
    refine ⟨fun _ => ?_, fun _ => nofun⟩
    have hlen := List.length_pos_iff.mpr (@lineWords_ne_nil c s hc)
    rw [if_neg (Nat.not_le.mpr hlen)]
    rfl
  | succ room ih =>
    have hcase := @firstCase c s room hc
    have hhead := @head_of_scanWords (c :: s) room
    generalize hfirst : scanFirst (c :: s) = x at hcase hhead
    generalize lineWords (c :: s) = ws at hcase
    generalize regular (room + 1) none (c :: s) = b at hcase
    cases hcase with
    | leaves =>
      rw [scanWords, hfirst]
      exact ⟨nofun, fun _ => nofun⟩
    | last =>
      rw [scanWords, hfirst]
      exact ⟨fun _ => by simp, nofun⟩
    | differ h =>
      -- the first words differ, whatever is behind them
      refine ⟨nofun, fun _ hscan => h ?_⟩
      rw [hhead rfl hscan, List.nil_append]
    | @next w rest =>
      rw [scanWords, hfirst, List.nil_append]
      dsimp only
      -- both go on behind the blanks
      rw [← wordsFrom_dropWhile, ← regular_dropWhile]
      cases hrest : rest.dropWhile isBlank with
      | nil => exact ⟨fun _ => by simp [wordsFrom], nofun⟩
      | cons d t =>
        obtain ⟨hreg, hirr⟩ := ih (isBlank_of_dropWhile hrest)
        dsimp only
        refine ⟨fun h => ?_, fun h hscan => hirr h ?_⟩
        · rw [hreg h, lineWords, List.length_cons, Option.map_some]
          split_ifs <;> first | rfl | omega
        · simp only [Option.map_eq_some_iff, List.cons.injEq, true_and] at hscan
          obtain ⟨_, hscan, ws', rfl, rfl⟩ := hscan
          exact hscan

/-- No word starts with the quote that opened it. -/
theorem head_lineWords_quote (w : List UInt8) :
    (lineWords (quote :: s)).head? ≠ some (quote :: w) := by
  have hquote : lineWords (quote :: s) = wordsFrom (.quoted []) s := by
    rw [lineWords, wordsFrom, if_neg (by decide), if_pos rfl]
  rw [hquote]
  rcases s with _ | ⟨c, s⟩
  · simp [wordsFrom]
  · rw [wordsFrom]
    split_ifs with hc
    · simp
    · obtain ⟨v, ws, h⟩ := exists_wordsFrom .escaped (.inr rfl) ([] ++ [c]) s
      rw [h]
      simp [hc]
    · obtain ⟨v, ws, h⟩ := exists_wordsFrom .quoted (.inl rfl) ([] ++ [c]) s
      rw [h]
      simp [hc]

end

end TlBleSdk.Eslp
