import TlBleSdk.Eslp.ShellWords

/-!
# The lines of the shell

`app_parse_char.c` of the access point: `app_parse_loop` collects a line, and `tlk_split_argv`
splits it in place. The memory is the line with its terminator. An access behind the terminator
has no result.
-/

namespace TlBleSdk.Eslp

/-- `PARSE_CHAR_MAX_ARGV_SIZE`. -/
def parseCharMaxArgvSize : ℕ := 24

/-- The size of `shellRecvCmdBuf`, `PARSE_CHAR_UART_BUFF_SIZE + 1`. -/
def shellRecvCmdBufSize : ℕ := 256 + 1

/-- `'\r'` or `'\n'`. -/
def isEol (c : UInt8) : Bool := c == 0x0D || c == 0x0A

/-! ## Splitting a line -/

/-- The pointer behind the blanks at `str`. -/
def skipBlank (m : List UInt8) (str : ℕ) : Option ℕ :=
  match h : m[str]? with
  | none => none
  | some c => if isBlank c then skipBlank m (str + 1) else some str
termination_by m.length - str
decreasing_by
  have hlt := (List.getElem?_eq_some_iff.mp h).1
  omega

/-- The pointer behind an escape at `str`, where `c` is. -/
def skipEscape (m : List UInt8) (str : ℕ) (c : UInt8) : Option ℕ :=
  if c = backslash then m[str + 1]?.map fun d => if d = quote then str + 2 else str + 1
  else some str

theorem le_skipEscape {m : List UInt8} {str str' : ℕ} {c : UInt8}
    (h : skipEscape m str c = some str') : str ≤ str' := by
  unfold skipEscape at h
  split at h
  · obtain ⟨d, -, rfl⟩ := Option.map_eq_some_iff.mp h
    split <;> omega
  · exact Nat.le_of_eq (Option.some.inj h)

/-- The loop of `tlk_strchr`. The byte behind an escape is not looked at before it is passed. -/
def strchrLoop (stringFlag : Bool) (m : List UInt8) (str : ℕ) : Option (List UInt8 × ℕ) :=
  match _h : m[str]? with
  | none => none
  | some c =>
    if c = 0 then some (m, str)
    else
      match _hescape : skipEscape m str c with
      | none => none
      | some str' =>
        match m[str']? with
        | none => none
        | some d =>
          if endsWord stringFlag d then some (m.set str' 0, str' + 1)
          else strchrLoop stringFlag m (str' + 1)
termination_by m.length - str
decreasing_by
  have hlt := (List.getElem?_eq_some_iff.mp _h).1
  have hle := le_skipEscape _hescape
  omega

/-- `tlk_strchr`: the memory with the separator overwritten, and the pointer behind it. -/
def tlkStrchr (m : List UInt8) (str : ℕ) : Option (List UInt8 × ℕ) := do
  let str ← skipBlank m str
  let c ← m[str]?
  if c = quote then strchrLoop true m (str + 1) else strchrLoop false m str

/-- What `tlk_split_argv` leaves: the memory, the entries of `argv` that it stored, where `none` is
`NULL`, and the `argc` that it returns. -/
structure SplitArgv where
  mem : List UInt8
  argv : List (Option ℕ)
  argc : ℕ

/-- The loop of `tlk_split_argv` with `room` entries behind `argv`. Without room there are too many
parameters. -/
def splitLoop : ℕ → List UInt8 → ℕ → List ℕ → Option SplitArgv
  | 0, m, _, argv => some ⟨m, argv.map some, 0⟩
  | room + 1, m, str, argv => do
    let (m, str) ← tlkStrchr m str
    let str ← skipBlank m str
    let c ← m[str]?
    if c = 0 then some ⟨m, argv.map some ++ [none], argv.length⟩
    else splitLoop room m str (argv ++ [if c = quote then str + 1 else str])

/-- The ends of line from the index `i` down are overwritten. -/
def stripEol (m : List UInt8) : ℕ → Option (List UInt8)
  | 0 => some m
  | i + 1 => do
    let c ← m[i + 1]?
    if isEol c then stripEol (m.set (i + 1) 0) i else some m

/-- `tlk_split_argv`. -/
def tlkSplitArgv (m : List UInt8) : Option SplitArgv := do
  let len ← m.findIdx? (· == 0)
  if len = 0 then some ⟨m, [], 0⟩
  else
    let m ← stripEol m (len - 1)
    let str ← skipBlank m 0
    let c ← m[str]?
    if c = 0 then some ⟨m, [], 0⟩
    else splitLoop (parseCharMaxArgvSize - 1) m str [str]

/-- The string at a pointer. -/
def cString (m : List UInt8) (ptr : ℕ) : List UInt8 := (m.drop ptr).takeWhile (· != 0)

/-- The arguments that are returned. -/
def SplitArgv.args (r : SplitArgv) : List (List UInt8) :=
  (r.argv.take r.argc).map fun ptr => ptr.elim [] (cString r.mem)

/-! ## Collecting a line -/

/-- `app_parse_loop`: the lines that are split, for the bytes received. `line` is what
`shellRecvCmdBuf` holds in front of `shellRecvCmdBufIdx`. -/
def appParseLoop (line : List UInt8) : List UInt8 → List (List UInt8)
  | [] => []
  | c :: received =>
    if isEol c || c == 0 || line.length == shellRecvCmdBufSize - 1 then
      line :: appParseLoop [] received
    else appParseLoop (line ++ [c]) received

/-- A line has no terminator and no end of line, and fits in the buffer. -/
structure IsLine (line : List UInt8) : Prop where
  bytes : ∀ c ∈ line, isEol c = false ∧ c ≠ 0
  length_lt : line.length < shellRecvCmdBufSize

theorem isLine_nil : IsLine [] := ⟨fun _ hc => absurd hc List.not_mem_nil, by decide⟩

theorem isLine_of_mem {line l received : List UInt8} (hline : IsLine line)
    (hl : l ∈ appParseLoop line received) : IsLine l := by
  induction received generalizing line with
  | nil => exact absurd hl List.not_mem_nil
  | cons c received ih =>
    rw [appParseLoop] at hl
    split at hl
    case isTrue =>
      rcases List.mem_cons.mp hl with rfl | hl
      · exact hline
      · exact ih isLine_nil hl
    case isFalse hc =>
      simp only [Bool.or_eq_true, beq_iff_eq, not_or, Bool.not_eq_true] at hc
      obtain ⟨⟨heol, hnul⟩, hlen⟩ := hc
      refine ih ⟨fun d hd => ?_, ?_⟩ hl
      · rcases List.mem_append.mp hd with hd | hd
        · exact hline.bytes d hd
        · rw [List.mem_singleton.mp hd]
          exact ⟨heol, hnul⟩
      · have hlt := hline.length_lt
        rw [List.length_append, List.length_singleton]
        omega

/-! ## The loops -/

section

variable {m : List UInt8} {str str' : ℕ} {stringFlag : Bool} {c d : UInt8} {pre s : List UInt8}

theorem skipBlank_of_blank (h : m[str]? = some c) (hc : isBlank c = true) :
    skipBlank m str = skipBlank m (str + 1) := by
  rw [skipBlank]
  split <;> simp_all

theorem skipBlank_of_not_blank (h : m[str]? = some c) (hc : isBlank c = false) :
    skipBlank m str = some str := by
  rw [skipBlank]
  split <;> simp_all

theorem skipBlank_spec (pre s : List UInt8) :
    skipBlank (pre ++ s ++ [0]) pre.length = some (pre ++ s.takeWhile isBlank).length := by
  induction s generalizing pre with
  | nil =>
    have hread : (pre ++ [] ++ [0])[pre.length]? = some (0 : UInt8) := by simp
    rw [skipBlank_of_not_blank hread (by decide), List.takeWhile_nil, List.append_nil]
  | cons c s ih =>
    have hread : (pre ++ c :: s ++ [0])[pre.length]? = some c := by simp
    rw [List.takeWhile_cons]
    split_ifs with hc
    · have h := ih (pre ++ [c])
      rw [skipBlank_of_blank hread hc]
      simpa using h
    · rw [Bool.not_eq_true] at hc
      rw [skipBlank_of_not_blank hread hc, List.append_nil]

theorem strchrLoop_of_nul (h : m[str]? = some 0) : strchrLoop stringFlag m str = some (m, str) := by
  rw [strchrLoop]
  split <;> simp_all

theorem strchrLoop_of_none (h : m[str]? = none) : strchrLoop stringFlag m str = none := by
  rw [strchrLoop]
  split <;> simp_all

/-- An iteration, with the byte `d` behind the escape. -/
theorem strchrLoop_step (h : m[str]? = some c) (hc : c ≠ 0)
    (hescape : skipEscape m str c = some str') (hd : m[str']? = some d) :
    strchrLoop stringFlag m str =
      if endsWord stringFlag d then some (m.set str' 0, str' + 1)
      else strchrLoop stringFlag m (str' + 1) := by
  rw [strchrLoop]
  split
  case h_1 hnone =>
    rw [h] at hnone
    exact nomatch hnone
  case h_2 b hb =>
    rw [h] at hb
    cases hb
    rw [if_neg hc]
    split
    case h_1 hnone =>
      rw [hescape] at hnone
      exact nomatch hnone
    case h_2 p hp =>
      rw [hescape] at hp
      cases hp
      rw [hd]

/-- The loop of `tlk_strchr` behind `pre`, for what the scanner makes of the line `s`. -/
def StrchrOk (pre s : List UInt8) :
    Option (List UInt8 × Option (List UInt8)) → Option (List UInt8 × ℕ) → Prop
  | none, r => r = none
  | some (w, none), r => s = w ∧ r = some (pre ++ s ++ [0], (pre ++ s).length)
  | some (w, some rest), r => (∃ sep, s = w ++ sep :: rest) ∧
      r = some (pre ++ w ++ [0] ++ rest ++ [0], (pre ++ w ++ [0]).length)

/-- A byte that was passed. -/
theorem StrchrOk.cons {x : Option (List UInt8 × Option (List UInt8))}
    {r : Option (List UInt8 × ℕ)} (h : StrchrOk (pre ++ [c]) s x r) :
    StrchrOk pre (c :: s) (x.map (Prod.map (c :: ·) id)) r := by
  rcases x with _ | ⟨w, _ | rest⟩
  · exact h
  · obtain ⟨rfl, rfl⟩ := h
    exact ⟨rfl, by simp⟩
  · obtain ⟨⟨sep, rfl⟩, rfl⟩ := h
    exact ⟨⟨sep, rfl⟩, by simp⟩

/-- The end of an iteration, at the byte `d`. -/
theorem StrchrOk.step (ih : StrchrOk (pre ++ [d]) s (scanWord stringFlag .start s)
      (strchrLoop stringFlag (pre ++ [d] ++ s ++ [0]) (pre ++ [d]).length)) :
    StrchrOk pre (d :: s)
      (if endsWord stringFlag d then some ([], some s)
        else (scanWord stringFlag .start s).map (Prod.map (d :: ·) id))
      (if endsWord stringFlag d then some ((pre ++ d :: s ++ [0]).set pre.length 0, pre.length + 1)
        else strchrLoop stringFlag (pre ++ d :: s ++ [0]) (pre.length + 1)) := by
  split_ifs
  · exact ⟨⟨d, rfl⟩, by simp⟩
  · have h := ih.cons
    simpa using h

theorem skipEscape_quote (h : m[str + 1]? = some quote) :
    skipEscape m str backslash = some (str + 2) := by
  simp [skipEscape, h]

theorem skipEscape_of_ne (h : m[str + 1]? = some d) (hd : d ≠ quote) :
    skipEscape m str backslash = some (str + 1) := by
  simp [skipEscape, h, hd]

theorem endsWord_nul (stringFlag : Bool) : endsWord stringFlag 0 = false := by
  cases stringFlag <;> rfl

/-- An escape whose byte is the terminator: the loop goes on behind it. -/
theorem strchrLoop_over (h : m[str]? = some backslash)
    (hescape : skipEscape m str backslash = some str') (hnul : m[str']? = some 0)
    (hend : m[str' + 1]? = none) : strchrLoop stringFlag m str = none := by
  rw [strchrLoop_step h (by decide) hescape hnul, endsWord_nul, if_neg (by decide),
    strchrLoop_of_none hend]

/-- The loop does what the scanner does. -/
theorem strchrLoop_spec (stringFlag : Bool) (pre s : List UInt8) (hs : ∀ c ∈ s, c ≠ 0) :
    StrchrOk pre s (scanWord stringFlag .start s)
      (strchrLoop stringFlag (pre ++ s ++ [0]) pre.length) := by
  induction hlen : s.length using Nat.strongRecOn generalizing pre s with
  | ind n ih =>
    subst hlen
    -- one iteration takes up to three bytes
    rcases s with _ | ⟨c, s⟩
    · exact ⟨rfl, (strchrLoop_of_nul (by simp)).trans (by simp)⟩
    have hread : (pre ++ c :: s ++ [0])[pre.length]? = some c := by simp
    by_cases hback : c = backslash
    · subst hback
      rw [scanWord, if_pos rfl]
      rcases s with _ | ⟨d, s⟩
      · exact strchrLoop_over hread (skipEscape_of_ne (d := 0) (by simp) (by decide)) (by simp)
          (by simp)
      have hread' : (pre ++ backslash :: d :: s ++ [0])[pre.length + 1]? = some d := by simp
      by_cases hquote : d = quote
      · subst hquote
        rw [scanWord, if_pos rfl]
        rcases s with _ | ⟨e, s⟩
        · exact strchrLoop_over hread (skipEscape_quote hread') (by simp) (by simp)
        have hread'' : (pre ++ backslash :: quote :: e :: s ++ [0])[pre.length + 2]? = some e := by
          simp
        have h := ih s.length (by simp only [List.length_cons]; omega)
          (pre ++ [backslash] ++ [quote] ++ [e]) s
          (fun b hb => hs b (by simp [hb])) rfl
        rw [strchrLoop_step hread (by decide) (skipEscape_quote hread') hread'', scanWord]
        have hstep := h.step.cons.cons
        simpa using hstep
      · have h := ih s.length (by simp only [List.length_cons]; omega) (pre ++ [backslash] ++ [d]) s
          (fun b hb => hs b (by simp [hb])) rfl
        rw [strchrLoop_step hread (by decide) (skipEscape_of_ne hread' hquote) hread', scanWord,
          if_neg hquote]
        have hstep := h.step.cons
        simpa using hstep
    · have h := ih s.length (Nat.lt_succ_self _) (pre ++ [c]) s
        (fun b hb => hs b (by simp [hb])) rfl
      rw [strchrLoop_step hread (hs c List.mem_cons_self) (if_neg hback) hread, scanWord,
        if_neg hback]
      exact h.step

/-- The quote in front of a word. -/
def opening (c : UInt8) : List UInt8 := if c = quote then [quote] else []

/-- A word from its first byte on. -/
theorem tlkStrchr_spec (pre : List UInt8) (hc : isBlank c = false) (hs : ∀ b ∈ c :: s, b ≠ 0) :
    ∃ t, c :: s = opening c ++ t ∧ StrchrOk (pre ++ opening c) t (scanFirst (c :: s))
      (tlkStrchr (pre ++ c :: s ++ [0]) pre.length) := by
  have hread : (pre ++ c :: s ++ [0])[pre.length]? = some c := by simp
  have hstrchr : tlkStrchr (pre ++ c :: s ++ [0]) pre.length =
      if c = quote then strchrLoop true (pre ++ c :: s ++ [0]) (pre.length + 1)
      else strchrLoop false (pre ++ c :: s ++ [0]) pre.length := by
    rw [tlkStrchr, skipBlank_of_not_blank hread hc]
    simp only [Option.bind_eq_bind, Option.bind_some, hread]
  rw [hstrchr, opening, scanFirst]
  split_ifs with hquote
  · subst hquote
    refine ⟨s, rfl, ?_⟩
    have h := strchrLoop_spec true (pre ++ [quote]) s fun b hb => hs b (List.mem_cons_of_mem _ hb)
    simpa using h
  · refine ⟨c :: s, rfl, ?_⟩
    rw [List.append_nil]
    exact strchrLoop_spec false pre (c :: s) hs

theorem cString_append (pre t : List UInt8) {w : List UInt8} (hw : ∀ c ∈ w, c ≠ 0) :
    cString (pre ++ w ++ [0] ++ t) pre.length = w := by
  have hw' : ∀ c ∈ w, (c != 0) = true := fun c hc => bne_iff_ne.mpr (hw c hc)
  rw [cString, List.append_assoc, List.append_assoc, List.drop_left,
    List.takeWhile_append_of_pos hw']
  simp

theorem length_opening (pre : List UInt8) (c : UInt8) :
    (pre ++ opening c).length = if c = quote then pre.length + 1 else pre.length := by
  rw [List.length_append, opening]
  split_ifs <;> rfl

/-- No word is behind this one. -/
theorem splitLoop_of_nul {room : ℕ} {argv : List ℕ} {m' : List UInt8} {ptr : ℕ}
    (hstrchr : tlkStrchr m str = some (m', str')) (hskip : skipBlank m' str' = some ptr)
    (hread : m'[ptr]? = some 0) : splitLoop (room + 1) m str argv =
      some ⟨m', argv.map some ++ [none], argv.length⟩ := by
  simp [splitLoop, hstrchr, hskip, hread]

/-- The word behind this one is stored. -/
theorem splitLoop_of_word {room : ℕ} {argv : List ℕ} {m' : List UInt8} {ptr : ℕ}
    (hstrchr : tlkStrchr m str = some (m', str')) (hskip : skipBlank m' str' = some ptr)
    (hread : m'[ptr]? = some c) (hc : c ≠ 0) : splitLoop (room + 1) m str argv =
      splitLoop room m' ptr (argv ++ [if c = quote then ptr + 1 else ptr]) := by
  simp [splitLoop, hstrchr, hskip, hread, hc]

/-- The loop of `tlk_split_argv` at a word behind `pre`, for the words that the scanner finds. -/
def SplitOk (pre : List UInt8) (room : ℕ) (argv : List ℕ) :
    Option (Option (List (List UInt8))) → Option SplitArgv → Prop
  | none, r => r = none
  | some none, r => ∃ m, ∃ ptrs : List ℕ, r = some ⟨m, ptrs.map some, 0⟩ ∧
      ptrs.length = argv.length + room
  | some (some ws), r => ∃ w t, ∃ ptrs : List ℕ,
      r = some ⟨pre ++ w ++ [0] ++ t, (argv ++ ptrs).map some ++ [none], (argv ++ ptrs).length⟩ ∧
      (∀ b ∈ w, b ≠ 0) ∧ ptrs.length < room ∧
      ws = w :: ptrs.map (cString (pre ++ w ++ [0] ++ t))

/-- A word in front of those that the loop finds. -/
theorem SplitOk.cons {room : ℕ} {argv : List ℕ} {w blanks : List UInt8} (hw : ∀ b ∈ w, b ≠ 0)
    {x : Option (Option (List (List UInt8)))} {r : Option SplitArgv}
    (h : SplitOk (pre ++ w ++ [0] ++ blanks ++ opening c) room
      (argv ++ [(pre ++ w ++ [0] ++ blanks ++ opening c).length]) x r) :
    SplitOk pre (room + 1) argv (x.map (Option.map (w :: ·))) r := by
  rcases x with _ | _ | ws
  · exact h
  · obtain ⟨m, ptrs, rfl, hlen⟩ := h
    refine ⟨m, ptrs, rfl, ?_⟩
    rw [List.length_append, List.length_singleton] at hlen
    omega
  · obtain ⟨w', t, ptrs, rfl, hw', hroom, rfl⟩ := h
    have hmem : pre ++ w ++ [0] ++ blanks ++ opening c ++ w' ++ [0] ++ t =
        pre ++ w ++ [0] ++ (blanks ++ opening c ++ w' ++ [0] ++ t) := by simp
    have hstring := cString_append (pre ++ w ++ [0] ++ blanks ++ opening c) t hw'
    rw [hmem] at hstring ⊢
    refine ⟨w, blanks ++ opening c ++ w' ++ [0] ++ t,
      (pre ++ w ++ [0] ++ blanks ++ opening c).length :: ptrs, ?_, hw, Nat.succ_lt_succ hroom, ?_⟩
    · rw [List.append_assoc argv, List.singleton_append]
    · rw [List.map_cons, hstring]

theorem splitLoop_spec (room : ℕ) (pre : List UInt8) (argv : List ℕ) (hc : isBlank c = false)
    (hs : ∀ b ∈ c :: s, b ≠ 0) :
    SplitOk (pre ++ opening c) room argv (scanWords room (c :: s))
      (splitLoop room (pre ++ c :: s ++ [0]) pre.length argv) := by
  induction room generalizing c s pre argv with
  | zero => exact ⟨_, argv, rfl, rfl⟩
  | succ room ih =>
    obtain ⟨t, ht, hword⟩ := tlkStrchr_spec pre hc hs
    have hnul : ∀ b ∈ t, b ≠ 0 := fun b hb => hs b (by rw [ht]; exact List.mem_append_right _ hb)
    rw [scanWords]
    generalize scanFirst (c :: s) = x at hword
    rcases x with _ | ⟨w, _ | rest⟩
    · have hnone : tlkStrchr (pre ++ c :: s ++ [0]) pre.length = none := hword
      rw [splitLoop, hnone]
      rfl
    · -- the word ends at the terminator
      obtain ⟨rfl, hstrchr⟩ := hword
      have hskip := skipBlank_spec (pre ++ opening c ++ t) []
      rw [List.append_nil, List.takeWhile_nil, List.append_nil] at hskip
      rw [splitLoop_of_nul hstrchr hskip (by simp)]
      exact ⟨t, [], [], by simp, hnul, Nat.succ_pos _, rfl⟩
    · obtain ⟨⟨sep, rfl⟩, hstrchr⟩ := hword
      have hw : ∀ b ∈ w, b ≠ 0 := fun b hb => hnul b (List.mem_append_left _ hb)
      have hskip := skipBlank_spec (pre ++ opening c ++ w ++ [0]) rest
      have hmem : pre ++ opening c ++ w ++ [0] ++ rest ++ [0] =
          pre ++ opening c ++ w ++ [0] ++ rest.takeWhile isBlank ++ rest.dropWhile isBlank ++
            [0] := by
        rw [List.append_assoc _ (rest.takeWhile isBlank), List.takeWhile_append_dropWhile]
      dsimp only
      -- behind the blanks the line ends, or the next word begins
      cases hrest : rest.dropWhile isBlank with
      | nil =>
        rw [hrest, List.append_nil] at hmem
        rw [splitLoop_of_nul hstrchr hskip (by rw [hmem]; simp)]
        exact ⟨w, rest ++ [0], [], by simp, hw, Nat.succ_pos _, rfl⟩
      | cons d u =>
        rw [hrest] at hmem
        have hd : ∀ b ∈ d :: u, b ≠ 0 := by
          intro b hb
          rw [← hrest] at hb
          have hmem' := (List.dropWhile_sublist isBlank).mem hb
          exact hnul b (List.mem_append_right _ (List.mem_cons_of_mem _ hmem'))
        have hblank := isBlank_of_dropWhile hrest
        rw [splitLoop_of_word hstrchr hskip (c := d) (by rw [hmem]; simp)
          (hd d List.mem_cons_self), hmem, ← length_opening]
        exact (ih _ _ hblank hd).cons hw

end

/-! ## The lines that are split by the grammar -/

/-- `tlk_split_argv` stays in the line, stores no more entries than there are, the last one `NULL`,
and returns the words of the line, or nothing if there are too many. -/
def SplitsLine (line : List UInt8) : Prop :=
  ∃ r, tlkSplitArgv (line ++ [0]) = some r ∧ r.argv.length ≤ parseCharMaxArgvSize ∧
    (r.argc ≠ 0 → r.argv[r.argc]? = some none) ∧
    r.args = if (lineWords line).length < parseCharMaxArgvSize then lineWords line else []

/-- The words that are scanned are regular, and the first one is not quoted if there are not too
many. -/
def RegularLine (line : List UInt8) : Prop :=
  regular (parseCharMaxArgvSize - 1) none line = true ∧
    ((lineWords line).length < parseCharMaxArgvSize →
      (line.dropWhile isBlank).head? ≠ some quote)

section

variable {line : List UInt8}

theorem findIdx?_nul (h : IsLine line) : (line ++ [0]).findIdx? (· == 0) = some line.length := by
  rw [List.findIdx?_append, List.findIdx?_eq_none_iff.mpr fun c hc => ?_]
  · simp
  · exact beq_eq_false_iff_ne.mpr (h.bytes c hc).2

/-- A line has no end of line to overwrite. -/
theorem stripEol_line (h : IsLine line) {i : ℕ} (hi : i < line.length) :
    stripEol (line ++ [0]) i = some (line ++ [0]) := by
  rcases i with _ | i
  · rfl
  · obtain ⟨c, hc, hread⟩ : ∃ c ∈ line, (line ++ [0])[i + 1]? = some c := by
      refine ⟨line.get ⟨i + 1, hi⟩, List.get_mem _ _, ?_⟩
      rw [List.getElem?_append_left hi, List.getElem?_eq_getElem hi]
      rfl
    simp [stripEol, hread, (h.bytes c hc).1]

/-- `tlk_split_argv` of a line without words. -/
theorem tlkSplitArgv_nil (h : IsLine line) (hwords : line.dropWhile isBlank = []) :
    tlkSplitArgv (line ++ [0]) = some ⟨line ++ [0], [], 0⟩ := by
  have hskip := skipBlank_spec [] line
  have htake : line.takeWhile isBlank = line := by
    have happend := @List.takeWhile_append_dropWhile _ isBlank line
    rwa [hwords, List.append_nil] at happend
  rw [List.nil_append, List.nil_append, htake] at hskip
  rw [tlkSplitArgv, findIdx?_nul h]
  rcases line with _ | ⟨c, line⟩
  · rfl
  · have hstrip := stripEol_line h (i := (c :: line).length - 1) (by simp)
    simp only [Option.bind_eq_bind, Option.bind_some, hstrip]
    rw [if_neg (by simp)]
    rw [List.length_nil] at hskip
    simp only [hskip, Option.bind_some]
    simp

/-- `tlk_split_argv` of a line whose first word starts with `c`. -/
theorem tlkSplitArgv_cons (h : IsLine line) {c : UInt8} {s : List UInt8}
    (hwords : line.dropWhile isBlank = c :: s) :
    tlkSplitArgv (line ++ [0]) = splitLoop (parseCharMaxArgvSize - 1)
      (line.takeWhile isBlank ++ c :: s ++ [0]) (line.takeWhile isBlank).length
      [(line.takeWhile isBlank).length] := by
  have hmem : line ++ [0] = line.takeWhile isBlank ++ c :: s ++ [0] := by
    rw [← hwords, List.takeWhile_append_dropWhile]
  have hskip := skipBlank_spec [] line
  rw [List.nil_append, List.nil_append, List.length_nil] at hskip
  have hread : (line ++ [0])[(line.takeWhile isBlank).length]? = some c := by
    rw [hmem]
    simp
  have hc : c ∈ line := (List.dropWhile_sublist isBlank).mem (by rw [hwords]; simp)
  have hpos : 0 < line.length := List.length_pos_of_mem hc
  have hstrip := stripEol_line h (i := line.length - 1) (by omega)
  rw [tlkSplitArgv, findIdx?_nul h]
  simp only [Option.bind_eq_bind, Option.bind_some, hstrip, hskip, hread]
  rw [if_neg (Nat.ne_of_gt hpos), if_neg (h.bytes c hc).2, ← hmem]

/-- The arguments at the pointers that were stored. -/
theorem args_of_ptrs (m : List UInt8) (ptrs : List ℕ) :
    SplitArgv.args ⟨m, ptrs.map some ++ [none], ptrs.length⟩ = ptrs.map (cString m) := by
  have hlen : (ptrs.map some).length = ptrs.length := List.length_map _
  rw [SplitArgv.args, ← hlen, List.take_left, List.map_map]
  rfl

/-- A byte of the first argument, which keeps its opening quote. -/
theorem ne_nul_of_mem_first {c : UInt8} {w : List UInt8} (hw : ∀ b ∈ w, b ≠ 0) :
    ∀ b ∈ opening c ++ w, b ≠ 0 := by
  intro b hb
  rcases List.mem_append.mp hb with hb | hb
  · unfold opening at hb
    split_ifs at hb with hquote
    · rw [List.mem_singleton.mp hb]
      decide
    · exact absurd hb List.not_mem_nil
  · exact hw b hb

/-- The arguments of a line whose first word was found behind `pre`. -/
theorem args_of_first (pre t : List UInt8) (c : UInt8) {w : List UInt8} (ptrs : List ℕ)
    (hw : ∀ b ∈ w, b ≠ 0) :
    SplitArgv.args ⟨pre ++ opening c ++ w ++ [0] ++ t, ([pre.length] ++ ptrs).map some ++ [none],
      ([pre.length] ++ ptrs).length⟩ =
        (opening c ++ w) :: ptrs.map (cString (pre ++ opening c ++ w ++ [0] ++ t)) := by
  have hstring := cString_append pre t (ne_nul_of_mem_first (c := c) hw)
  rw [← List.append_assoc] at hstring
  rw [args_of_ptrs, List.singleton_append, List.map_cons, hstring]

theorem splitsLine_iff {r : SplitArgv} (hsplit : tlkSplitArgv (line ++ [0]) = some r)
    (hlen : r.argv.length ≤ parseCharMaxArgvSize)
    (hnull : r.argc ≠ 0 → r.argv[r.argc]? = some none) :
    SplitsLine line ↔
      r.args = if (lineWords line).length < parseCharMaxArgvSize then lineWords line else [] := by
  constructor
  · rintro ⟨r', hr', -, -, hargs⟩
    rw [hsplit] at hr'
    rw [Option.some.inj hr']
    exact hargs
  · intro hargs
    exact ⟨r, hsplit, hlen, hnull, hargs⟩

theorem regularLine_iff {c : UInt8} {s : List UInt8} (hwords : line.dropWhile isBlank = c :: s) :
    RegularLine line ↔ regular (parseCharMaxArgvSize - 1) none (c :: s) = true ∧
      ((lineWords (c :: s)).length < parseCharMaxArgvSize → c ≠ quote) := by
  have hline : lineWords (line.dropWhile isBlank) = lineWords line := wordsFrom_dropWhile line
  have hregular := regular_dropWhile (parseCharMaxArgvSize - 1) line
  rw [RegularLine, ← hline, ← hregular, hwords, List.head?_cons, ne_eq, Option.some_inj]

/-- A line without words. -/
theorem splitsLine_of_nil (h : IsLine line) (hwords : line.dropWhile isBlank = []) :
    RegularLine line ∧ SplitsLine line := by
  have hline : lineWords (line.dropWhile isBlank) = lineWords line := wordsFrom_dropWhile line
  have hregular := regular_dropWhile (parseCharMaxArgvSize - 1) line
  rw [hwords] at hline hregular
  constructor
  · rw [RegularLine, ← hregular, hwords]
    exact ⟨rfl, fun _ => nofun⟩
  · rw [splitsLine_iff (tlkSplitArgv_nil h hwords) (Nat.zero_le _) fun hne => absurd rfl hne,
      ← hline]
    rfl

/-- There were too many words for the entries. -/
theorem splitsLine_of_many {c : UInt8} {s m : List UInt8} {ptrs : List ℕ}
    (hwords : line.dropWhile isBlank = c :: s)
    (hsplit : tlkSplitArgv (line ++ [0]) = some ⟨m, ptrs.map some, 0⟩)
    (hlen : ptrs.length ≤ parseCharMaxArgvSize) :
    SplitsLine line ↔ ¬ (lineWords (c :: s)).length < parseCharMaxArgvSize := by
  have hline : lineWords (line.dropWhile isBlank) = lineWords line := wordsFrom_dropWhile line
  have hlen' : (ptrs.map some).length ≤ parseCharMaxArgvSize := by
    rw [List.length_map]
    exact hlen
  rw [splitsLine_iff hsplit hlen' fun hne => absurd rfl hne, ← hline, hwords]
  constructor
  · intro hargs hfew
    rw [if_pos hfew] at hargs
    exact lineWords_ne_nil (isBlank_of_dropWhile hwords) hargs.symm
  · intro hmany
    rw [if_neg hmany]
    rfl

/-- The scanner found the words of the line. -/
theorem splitsLine_of_words {c : UInt8} {s w t pre : List UInt8} {ptrs : List ℕ}
    (hwords : line.dropWhile isBlank = c :: s)
    (hsplit : tlkSplitArgv (line ++ [0]) = some ⟨pre ++ opening c ++ w ++ [0] ++ t,
      ([pre.length] ++ ptrs).map some ++ [none], ([pre.length] ++ ptrs).length⟩)
    (hw : ∀ b ∈ w, b ≠ 0) (hroom : ptrs.length < parseCharMaxArgvSize - 1) :
    SplitsLine line ↔ (opening c ++ w) :: ptrs.map (cString (pre ++ opening c ++ w ++ [0] ++ t)) =
      if (lineWords (c :: s)).length < parseCharMaxArgvSize then lineWords (c :: s) else [] := by
  have hline : lineWords (line.dropWhile isBlank) = lineWords line := wordsFrom_dropWhile line
  rw [hwords] at hline
  have hlen : (([pre.length] ++ ptrs).map some ++ [none]).length ≤ parseCharMaxArgvSize := by
    simp only [List.length_append, List.length_map, List.length_cons, List.length_nil]
    omega
  rw [splitsLine_iff hsplit hlen fun _ => by simp, args_of_first pre t c ptrs hw, ← hline]

/-- A line is split by the grammar if what is scanned is regular, and only then, unless it has too
many words anyway. -/
theorem splitsLine_of_isLine (h : IsLine line) :
    (RegularLine line → SplitsLine line) ∧
      ((lineWords line).length < parseCharMaxArgvSize → SplitsLine line → RegularLine line) := by
  have hmax : parseCharMaxArgvSize = 24 := rfl
  have hline : lineWords (line.dropWhile isBlank) = lineWords line := wordsFrom_dropWhile line
  cases hwords : line.dropWhile isBlank with
  | nil =>
    obtain ⟨hregular, hsplits⟩ := splitsLine_of_nil h hwords
    exact ⟨fun _ => hsplits, fun _ _ => hregular⟩
  | cons c s =>
    rw [hwords] at hline
    have hblank := isBlank_of_dropWhile hwords
    have hnul : ∀ b ∈ c :: s, b ≠ 0 := by
      intro b hb
      rw [← hwords] at hb
      exact (h.bytes b ((List.dropWhile_sublist isBlank).mem hb)).2
    have hloop := splitLoop_spec (parseCharMaxArgvSize - 1) (line.takeWhile isBlank)
      [(line.takeWhile isBlank).length] hblank hnul
    -- the loop does what the scanner says, and the scanner gives the words of a regular line
    obtain ⟨hscan, hirr⟩ := @scanWords_spec c s (parseCharMaxArgvSize - 1) hblank
    rw [regularLine_iff hwords, ← hline]
    rw [← tlkSplitArgv_cons h hwords] at hloop
    generalize scanWords (parseCharMaxArgvSize - 1) (c :: s) = x at hloop hscan hirr
    rcases x with _ | _ | ws
    · -- the scanner left the line
      have hnone : tlkSplitArgv (line ++ [0]) = none := hloop
      refine ⟨fun hregular => absurd (hscan hregular.1) nofun, fun _ hsplits => ?_⟩
      obtain ⟨r, hr, -⟩ := hsplits
      rw [hnone] at hr
      exact nomatch hr
    · -- too many words for the scanner
      obtain ⟨m, ptrs, hsplit, hlen⟩ := hloop
      rw [List.length_singleton] at hlen
      rw [splitsLine_of_many hwords hsplit (by omega)]
      refine ⟨fun hregular hfew => ?_, fun hfew hmany => absurd hfew hmany⟩
      have hnone := hscan hregular.1
      rw [if_pos (by omega)] at hnone
      exact nomatch hnone
    · -- the first word may have kept its quote
      obtain ⟨w, t, ptrs, hsplit, hw, hroom, rfl⟩ := hloop
      rw [splitsLine_of_words hwords hsplit hw hroom]
      refine ⟨fun hregular => ?_, fun hfew hargs => ?_⟩
      · have hall := Option.some.inj (hscan hregular.1)
        split_ifs at hall with hroom'
        have hopening : opening c = [] := if_neg (hregular.2 (by omega))
        rw [if_pos (by omega), ← Option.some.inj hall, hopening, List.nil_append, List.append_nil]
      · rw [if_pos hfew] at hargs
        have hquote : c ≠ quote := by
          rintro rfl
          refine @head_lineWords_quote s w ?_
          rw [← hargs]
          rfl
        have hopening : opening c = [] := if_neg hquote
        refine ⟨?_, fun _ => hquote⟩
        rw [← Bool.not_eq_false]
        intro hfalse
        refine hirr hfalse ?_
        rw [← hargs, hopening, List.nil_append]

end

/-- Every line that `app_parse_loop` collects is split by the grammar if what is scanned of it is
regular, and only then, unless it has too many words anyway. -/
theorem appParseLoop_splits (received : List UInt8) :
    ∀ line ∈ appParseLoop [] received, (RegularLine line → SplitsLine line) ∧
      ((lineWords line).length < parseCharMaxArgvSize → SplitsLine line → RegularLine line) :=
  fun _ hline => splitsLine_of_isLine (isLine_of_mem isLine_nil hline)

/-- The bytes of a text. -/
def ascii (text : String) : List UInt8 := text.toList.map fun c => UInt8.ofNat c.toNat

/-- A line with a quoted word that holds an escaped quote. -/
theorem appParseLoop_splits_say : SplitsLine (ascii "say \"a \\\" b\" c") := by
  refine (appParseLoop_splits (ascii "ping 1\nsay \"a \\\" b\" c\r\n") _ (by decide)).1 ?_
  exact ⟨by decide, fun _ => by decide⟩

/-- A line that ends with a backslash. -/
theorem not_appParseLoop_splits :
    ¬ ∀ received, ∀ line ∈ appParseLoop [] received, SplitsLine line := by
  intro h
  have hline : ascii "a\\" ∈ appParseLoop [] (ascii "a\\\n") := by decide
  have hregular :=
    (splitsLine_of_isLine (isLine_of_mem isLine_nil hline)).2 (by decide) (h _ _ hline)
  exact absurd hregular.1 (by decide)

end TlBleSdk.Eslp
