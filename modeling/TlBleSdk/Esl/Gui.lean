import Mathlib.Algebra.Order.Ring.Nat
import TlBleSdk.Hci.TrDef
import TlBleSdk.Lib.Stores

/-!
# Drawing to the image of the label

The drawing functions of `vendor_image/gui.c`. The image is 296 columns of 16 bytes, the last byte
of a column at its top, and a byte is 8 pixels, so that `y` counts bytes where the image is stored
to and pixels where it is checked. A drawing is its error code and its stores, and each store has
with it the column it is for. The bitmaps of the characters and of the pictures are tables of bytes
that nothing here depends on; only their sizes are known.
-/

namespace TlBleSdk.Esl

open Hci

/-- `X_MAX`. -/
def xMax : ℕ := 296

/-- `Y_MAX`. -/
def yMax : ℕ := 128

/-- `EPD_DATA_SIZE`. -/
def epdDataSize : ℕ := 4736

/-- `END_MARK`. -/
def endMark : UInt8 := 0

/-- The codes of `GUI_ERROR_CODE`. -/
inductive GuiErrorCode where
  | noError
  | overflow
  | notSupportChar
deriving DecidableEq

/-! ## The fonts -/

/-- `FONT_STYLE_NAME_Typedef`. -/
inductive FontStyle where
  | font8x16
  | font16x32
  | font32x56
deriving DecidableEq

namespace FontStyle

/-- `font_width`. -/
def width : FontStyle → UInt8
  | font8x16 => 8
  | font16x32 => 16
  | font32x56 => 32

/-- `font_height`. -/
def height : FontStyle → UInt8
  | font8x16 => 16
  | font16x32 => 32
  | font32x56 => 56

/-- The characters of a table, in its order. -/
def chars : FontStyle → List UInt8
  | font8x16 =>
    ['0', '1', '2', '3', '4', '5', '6', '7', '8', '9', 'A', 'B', 'C', 'D', 'E', 'F', 'G', 'H', 'I',
      'J', 'K', 'L', 'M', 'N', 'O', 'P', 'Q', 'R', 'S', 'T', 'U', 'V', 'W', 'X', 'Y', 'Z', '.', ' ',
      '/', 'c', 'e', 'g', 'i', 'k', 'l', 'n', 'p', 'u'].map Char.toUInt8
  | font16x32 =>
    ['0', '1', '2', '3', '4', '5', '6', '7', '8', '9', 'E', '$', 'Y', 'F', '.', '/'].map
      Char.toUInt8
  | font32x56 => ['0', '1', '2', '3', '4', '5', '6', '7', '8', '9', '.'].map Char.toUInt8

/-- The `data` of `font_bitmap`. -/
def fontBitmap (f : FontStyle) : List UInt8 := f.chars ++ [endMark]

theorem endMark_not_mem_chars (f : FontStyle) : endMark ∉ f.chars := by
  cases f <;> decide

end FontStyle

/-- The bitmaps of the characters, and `pics`. -/
structure Bitmaps where
  glyph : FontStyle → UInt8 → List UInt8
  pics : List UInt8
  length_glyph : ∀ f, ∀ c ∈ f.chars, (glyph f c).length = f.width.toNat * (f.height.toNat / 8)
  length_pics : pics.length = 2304

instance : Inhabited Bitmaps where
  default :=
    { glyph := fun f _ => List.replicate (f.width.toNat * (f.height.toNat / 8)) 0xff
      pics := List.replicate 2304 0xff
      length_glyph := fun _ _ _ => List.length_replicate
      length_pics := List.length_replicate }

/-- The loop of `GUI_GetFont`: whether the table has the character. It must not go on behind the
table. -/
def guiGetFontLoop (data : UInt8) : List UInt8 → Option Bool
  | [] => none
  | d :: table =>
    if d = endMark then some false
    else if data = d then some true
    else guiGetFontLoop data table

/-- `GUI_GetFont`: the bitmap, or `NULL`. -/
def guiGetFont (b : Bitmaps) (data : UInt8) (f : FontStyle) : Option (Option (List UInt8)) :=
  (guiGetFontLoop data f.fontBitmap).map fun found => if found then some (b.glyph f data) else none

/-! ## The drawings -/

/-- A store to the image, for a column. There is no value if it is read from behind the picture. -/
structure ImageStore where
  column : ℕ
  index : ℤ
  value : Option UInt8

/-- What a drawing function returns, and its stores. -/
structure Drawn where
  code : GuiErrorCode
  stores : List ImageStore

/-- A sum of `int`s that are not negative; there is none above `INT_MAX`. -/
def intOf (n : ℕ) : Option ℕ := if n < 2 ^ 31 then some n else none

/-- `GUI_DispPic`. -/
def guiDispPic (x y : ℕ) (pic : ℕ → Option UInt8) (width height : UInt8) : Drawn :=
  let nBit := height.toNat / 8
  -- only the first corner is checked, and `y` in pixels
  if xMax < x ∨ yMax < y then ⟨.overflow, []⟩
  else
    ⟨.noError, (List.range width.toNat).flatMap fun (i : ℕ) =>
      (List.range nBit).map fun (j : ℕ) =>
        { column := x + i
          index := (x + i) * 16 + 15 - y - j
          value := pic (nBit * (1 + i) - j - 1) }⟩

/-- `GUI_DispChar`. -/
def guiDispChar (b : Bitmaps) (x y : ℕ) (data : UInt8) (f : FontStyle) : Option Drawn :=
  (intOf (x + f.width.toNat)).bind fun right =>
    if xMax < right then some ⟨.overflow, []⟩
    else (intOf (y + f.height.toNat)).bind fun bottom =>
      if yMax < bottom then some ⟨.overflow, []⟩
      else (guiGetFont b data f).map fun font =>
        match font with
        | none => ⟨.notSupportChar, []⟩
        -- what `GUI_DispPic` returns is dropped
        | some font => ⟨.noError, (guiDispPic x y (fun k => font[k]?) f.width f.height).stores⟩

/-- The loop of `GUI_DispStr`, with the way from one character to the next. -/
def guiDispChars (b : Bitmaps) (f : FontStyle) (dx dy : ℕ) :
    (x y : ℕ) → (str : List UInt8) → Option (List ImageStore)
  | _, _, [] => some []
  | x, y, c :: str =>
    (guiDispChar b x y c f).bind fun d =>
      (guiDispChars b f dx dy (x + dx) (y + dy) str).map fun stores => d.stores ++ stores

/-- `GUI_DispStr`. The errors of the characters are not looked at. -/
def guiDispStr (b : Bitmaps) (x y : ℕ) (str : List UInt8) (dir : UInt8) (f : FontStyle) :
    Option Drawn :=
  if dir ≠ 0 then
    (intOf (str.length * f.width.toNat + x)).bind fun right =>
      if xMax < right then some ⟨.overflow, []⟩
      else (guiDispChars b f f.width.toNat 0 x y str).map fun stores => ⟨.noError, stores⟩
  else
    (intOf (str.length * f.height.toNat + y)).bind fun bottom =>
      if yMax < bottom then some ⟨.overflow, []⟩
      -- downwards the next character is two bytes on, whatever the font
      else (guiDispChars b f 0 2 x y str).map fun stores => ⟨.noError, stores⟩

/-- `GUI_Clear`. -/
def guiClear (colour : UInt8) : List ImageStore :=
  (List.range epdDataSize).map fun k => ⟨k / 16, k, some (if colour ≠ 0 then 0xff else 0)⟩

/-! ## The contract -/

/-- The store is to the image, and to its column. -/
def ImageStore.InColumn (s : ImageStore) : Prop :=
  0 ≤ s.index ∧ s.index ≤ 4735 ∧ s.column * 16 ≤ s.index ∧ s.index ≤ s.column * 16 + 15

/-- A drawing is refused without a store, or all its stores are to their columns. -/
def Meets (r : Option Drawn) : Prop :=
  ∃ d, r = some d ∧ (d.code ≠ .noError ∧ d.stores = [] ∨
    d.code = .noError ∧ ∀ s ∈ d.stores, s.InColumn)

/-- A drawing without a byte, or one that ends in the image and in its columns. -/
def PicFits (x y : ℕ) (width height : UInt8) : Prop :=
  xMax < x ∨ yMax < y ∨ width.toNat = 0 ∨ height.toNat / 8 = 0 ∨
    x + width.toNat ≤ xMax ∧ y + height.toNat / 8 ≤ 16

/-- The character is refused or ends in its columns, and its corner is an `int`. -/
def CharFits (x y : ℕ) (c : UInt8) (f : FontStyle) : Prop :=
  x + f.width.toNat < 2 ^ 31 ∧ (xMax < x + f.width.toNat ∨
    y + f.height.toNat < 2 ^ 31 ∧
      (yMax < y + f.height.toNat ∨ c ∉ f.chars ∨ y + f.height.toNat / 8 ≤ 16))

/-- The characters of a string from `(x, y)` on. -/
def CharsFit (f : FontStyle) (dx dy x y : ℕ) (str : List UInt8) : Prop :=
  ∀ i c, str[i]? = some c → CharFits (x + i * dx) (y + i * dy) c f

/-- The string is refused or its characters fit, and its corner is an `int`. -/
def StrFits (x y : ℕ) (str : List UInt8) (dir : UInt8) (f : FontStyle) : Prop :=
  if dir ≠ 0 then
    str.length * f.width.toNat + x < 2 ^ 31 ∧
      (xMax < str.length * f.width.toNat + x ∨ CharsFit f f.width.toNat 0 x y str)
  else
    str.length * f.height.toNat + y < 2 ^ 31 ∧
      (yMax < str.length * f.height.toNat + y ∨ CharsFit f 0 2 x y str)

/-! ## One drawing -/

theorem guiGetFontLoop_eq (data : UInt8) {cs : List UInt8} (h : endMark ∉ cs) :
    guiGetFontLoop data (cs ++ [endMark]) = some (decide (data ∈ cs)) := by
  induction cs with
  | nil => rfl
  | cons d cs ih =>
    have hd : d ≠ endMark := fun heq => h (heq ▸ List.mem_cons_self)
    rw [List.cons_append, guiGetFontLoop, if_neg hd]
    by_cases hdata : data = d
    · rw [if_pos hdata, decide_eq_true (hdata ▸ List.mem_cons_self)]
    · rw [if_neg hdata, ih (fun hmem => h (List.mem_cons_of_mem d hmem))]
      simp [hdata]

/-- Every table ends, so that a character is found or it is not in the table. -/
theorem guiGetFont_eq (b : Bitmaps) (data : UInt8) (f : FontStyle) :
    guiGetFont b data f = some (if data ∈ f.chars then some (b.glyph f data) else none) := by
  rw [guiGetFont, FontStyle.fontBitmap, guiGetFontLoop_eq data f.endMark_not_mem_chars]
  by_cases hmem : data ∈ f.chars
  · simp [hmem]
  · simp [hmem]

theorem mem_stores_guiDispPic {x y : ℕ} {pic : ℕ → Option UInt8} {width height : UInt8}
    {s : ImageStore} (hx : x ≤ xMax) (hy : y ≤ yMax) :
    s ∈ (guiDispPic x y pic width height).stores ↔
      ∃ i < width.toNat, ∃ j < height.toNat / 8,
        s = ⟨x + i, (x + i) * 16 + 15 - y - j, pic (height.toNat / 8 * (1 + i) - j - 1)⟩ := by
  rw [guiDispPic, if_neg (by omega)]
  simp only [List.mem_flatMap, List.mem_map, List.mem_range, eq_comm (a := s)]

/-- The corners of a picture decide for all its bytes. -/
theorem guiDispPic_inColumn_iff {x y : ℕ} (pic : ℕ → Option UInt8) (width height : UInt8)
    (hx : x ≤ xMax) (hy : y ≤ yMax) :
    (∀ s ∈ (guiDispPic x y pic width height).stores, s.InColumn) ↔ PicFits x y width height := by
  simp only [mem_stores_guiDispPic hx hy]
  unfold PicFits xMax yMax at *
  constructor
  · intro h
    by_cases hempty : width.toNat = 0 ∨ height.toNat / 8 = 0
    · omega
    · -- the upper byte of the last column, and the lower one
      have hupper := h _ ⟨width.toNat - 1, by omega, 0, by omega, rfl⟩
      have hlower := h _ ⟨width.toNat - 1, by omega, height.toNat / 8 - 1, by omega, rfl⟩
      unfold ImageStore.InColumn at hupper hlower
      dsimp only at hupper hlower
      omega
  · rintro h s ⟨i, hi, j, hj, rfl⟩
    unfold ImageStore.InColumn
    dsimp only
    omega

/-- A drawing that is refused has no stores. -/
theorem guiDispPic_refused {x y : ℕ} {pic : ℕ → Option UInt8} {width height : UInt8}
    (h : xMax < x ∨ yMax < y) : guiDispPic x y pic width height = ⟨.overflow, []⟩ := if_pos h

theorem guiDispPic_meets_iff (x y : ℕ) (pic : ℕ → Option UInt8) (width height : UInt8) :
    Meets (some (guiDispPic x y pic width height)) ↔ PicFits x y width height := by
  by_cases hin : xMax < x ∨ yMax < y
  · rw [guiDispPic_refused hin]
    exact iff_of_true ⟨_, rfl, .inl ⟨by decide, rfl⟩⟩ (hin.imp_right .inl)
  · have hcode : (guiDispPic x y pic width height).code = .noError := by
      rw [guiDispPic, if_neg hin]
    rw [← guiDispPic_inColumn_iff pic width height (by omega) (by omega)]
    constructor
    · rintro ⟨d, hd, ⟨hne, -⟩ | ⟨-, hstores⟩⟩
      · obtain rfl := Option.some.inj hd
        exact absurd hcode hne
      · obtain rfl := Option.some.inj hd
        exact hstores
    · exact fun hstores => ⟨_, rfl, .inr ⟨hcode, hstores⟩⟩

/-! ## Characters -/

/-- What is behind the check of a corner is drawn, or nothing is. -/
theorem checked_cases {n bound : ℕ} {drawn : Option Drawn} {d : Drawn}
    (h : ((intOf n).bind fun corner =>
      if bound < corner then some ⟨.overflow, []⟩ else drawn) = some d) :
    d = ⟨.overflow, []⟩ ∨ drawn = some d := by
  obtain ⟨corner, -, h⟩ := Option.bind_eq_some_iff.mp h
  by_cases hbound : bound < corner
  · rw [if_pos hbound] at h
    exact .inl (Option.some.inj h).symm
  · rw [if_neg hbound] at h
    exact .inr h

/-- A corner that is checked must be an `int`, and a drawing that is not refused is as it is behind
the check. -/
theorem exists_checked_iff {n bound : ℕ} {drawn : Option Drawn} {P : Drawn → Prop}
    (hrefused : P ⟨.overflow, []⟩) :
    (∃ d, ((intOf n).bind fun corner =>
      if bound < corner then some ⟨.overflow, []⟩ else drawn) = some d ∧ P d) ↔
      n < 2 ^ 31 ∧ (bound < n ∨ ∃ d, drawn = some d ∧ P d) := by
  unfold intOf
  by_cases hn : n < 2 ^ 31
  · rw [if_pos hn, Option.bind_some]
    by_cases hbound : bound < n
    · rw [if_pos hbound]
      exact iff_of_true ⟨_, rfl, hrefused⟩ ⟨hn, .inl hbound⟩
    · rw [if_neg hbound]
      constructor
      · intro h
        exact ⟨hn, .inr h⟩
      · intro h
        exact h.2.resolve_left hbound
  · rw [if_neg hn]
    exact iff_of_false (fun ⟨d, hd, _⟩ => nomatch hd) fun h => hn h.1

/-- A character is refused, or its bitmap is drawn. -/
theorem guiDispChar_cases {b : Bitmaps} {x y : ℕ} {c : UInt8} {f : FontStyle} {d : Drawn}
    (h : guiDispChar b x y c f = some d) :
    d = ⟨.overflow, []⟩ ∨ d = ⟨.notSupportChar, []⟩ ∨
      c ∈ f.chars ∧ d = ⟨.noError,
        (guiDispPic x y (fun k => (b.glyph f c)[k]?) f.width f.height).stores⟩ := by
  rw [guiDispChar, guiGetFont_eq] at h
  rcases checked_cases h with hrefused | h
  · exact .inl hrefused
  · rcases checked_cases h with hrefused | h
    · exact .inl hrefused
    · rw [Option.map_some] at h
      obtain rfl := Option.some.inj h
      by_cases hc : c ∈ f.chars
      · rw [if_pos hc]
        exact .inr (.inr ⟨hc, rfl⟩)
      · rw [if_neg hc]
        exact .inr (.inl rfl)

/-- The bitmap of a character that is not refused ends in its columns if its lower edge does, in
bytes. -/
theorem guiDispChar_inColumn_iff {b : Bitmaps} {x y : ℕ} {c : UInt8} {f : FontStyle} :
    (∃ d, guiDispChar b x y c f = some d ∧ ∀ s ∈ d.stores, s.InColumn) ↔ CharFits x y c f := by
  rw [guiDispChar, guiGetFont_eq, exists_checked_iff nofun, exists_checked_iff nofun, CharFits]
  refine and_congr_right fun _ => or_congr_right' fun hright => ?_
  refine and_congr_right fun _ => or_congr_right' fun hbottom => ?_
  by_cases hc : c ∈ f.chars
  · -- the bitmap of every font has a byte
    have hsize : f.width.toNat ≠ 0 ∧ f.height.toNat / 8 ≠ 0 := by
      cases f <;> decide
    have hpic := guiDispPic_inColumn_iff (fun k => (b.glyph f c)[k]?) f.width f.height
      (by omega : x ≤ xMax) (by omega : y ≤ yMax)
    simp only [hc, if_true, Option.map_some, Option.some.injEq, exists_eq_left', hpic,
      not_true_eq_false, false_or, PicFits]
    omega
  · rw [if_neg hc]
    exact iff_of_true ⟨_, rfl, nofun⟩ (.inl hc)

theorem guiDispChar_meets_iff (b : Bitmaps) (x y : ℕ) (c : UInt8) (f : FontStyle) :
    Meets (guiDispChar b x y c f) ↔ CharFits x y c f := by
  rw [← guiDispChar_inColumn_iff (b := b)]
  constructor
  · rintro ⟨d, hd, ⟨-, hnone⟩ | ⟨-, hstores⟩⟩
    · exact ⟨d, hd, by simp [hnone]⟩
    · exact ⟨d, hd, hstores⟩
  · intro ⟨d, hd, hstores⟩
    refine ⟨d, hd, ?_⟩
    rcases guiDispChar_cases hd with rfl | rfl | ⟨-, rfl⟩
    · exact .inl ⟨by decide, rfl⟩
    · exact .inl ⟨by decide, rfl⟩
    · exact .inr ⟨rfl, hstores⟩

/-! ## Strings -/

theorem charsFit_nil (f : FontStyle) (dx dy x y : ℕ) : CharsFit f dx dy x y [] := nofun

theorem charsFit_cons {f : FontStyle} {dx dy x y : ℕ} {c : UInt8} {str : List UInt8} :
    CharsFit f dx dy x y (c :: str) ↔
      CharFits x y c f ∧ CharsFit f dx dy (x + dx) (y + dy) str := by
  have hnext : ∀ a d i, a + (i + 1) * d = a + d + i * d := by
    intro a d i
    rw [Nat.add_one_mul]
    omega
  constructor
  · intro h
    have hfirst := h 0 c rfl
    rw [Nat.zero_mul, Nat.zero_mul] at hfirst
    refine ⟨hfirst, fun i c' hi => ?_⟩
    have hrest := h (i + 1) c' hi
    rwa [hnext, hnext] at hrest
  · rintro ⟨hfirst, hrest⟩ i c' hi
    cases i with
    | zero =>
      obtain rfl := Option.some.inj hi
      rwa [Nat.zero_mul, Nat.zero_mul]
    | succ i =>
      rw [hnext, hnext]
      exact hrest i c' hi

/-- The loop stores to its columns exactly if every character does. -/
theorem guiDispChars_inColumn_iff {b : Bitmaps} {f : FontStyle} {dx dy : ℕ} {str : List UInt8} :
    ∀ {x y : ℕ}, (∃ stores, guiDispChars b f dx dy x y str = some stores ∧
      ∀ s ∈ stores, s.InColumn) ↔ CharsFit f dx dy x y str := by
  induction str with
  | nil =>
    intro x y
    exact iff_of_true ⟨[], rfl, nofun⟩ (charsFit_nil f dx dy x y)
  | cons c str ih =>
    intro x y
    rw [charsFit_cons, ← guiDispChar_inColumn_iff (b := b), ← ih, guiDispChars]
    constructor
    · rintro ⟨stores, hstores, hin⟩
      obtain ⟨d, hd, hmap⟩ := Option.bind_eq_some_iff.mp hstores
      obtain ⟨rest, hrest, rfl⟩ := Option.map_eq_some_iff.mp hmap
      exact ⟨⟨d, hd, fun s hs => hin s (List.mem_append_left _ hs)⟩,
        ⟨rest, hrest, fun s hs => hin s (List.mem_append_right _ hs)⟩⟩
    · rintro ⟨⟨d, hd, hin⟩, ⟨rest, hrest, hin'⟩⟩
      refine ⟨d.stores ++ rest, by rw [hd, hrest]; rfl, fun s hs => ?_⟩
      exact (List.mem_append.mp hs).elim (hin s) (hin' s)

/-- The loop behind a corner that was checked. -/
theorem meets_checked_iff {n bound : ℕ} {stores : Option (List ImageStore)} {fits : Prop}
    (hfits : (∃ l, stores = some l ∧ ∀ s ∈ l, s.InColumn) ↔ fits) :
    Meets ((intOf n).bind fun corner => if bound < corner then some ⟨.overflow, []⟩
      else stores.map fun l => ⟨.noError, l⟩) ↔ n < 2 ^ 31 ∧ (bound < n ∨ fits) := by
  rw [Meets, exists_checked_iff (.inl ⟨by decide, rfl⟩), ← hfits]
  refine and_congr_right fun _ => or_congr_right ?_
  constructor
  · rintro ⟨d, hd, h⟩
    obtain ⟨l, hl, rfl⟩ := Option.map_eq_some_iff.mp hd
    exact ⟨l, hl, (h.resolve_left fun h => h.1 rfl).2⟩
  · rintro ⟨l, rfl, hin⟩
    exact ⟨_, rfl, .inr ⟨rfl, hin⟩⟩

theorem guiDispStr_meets_iff (b : Bitmaps) (x y : ℕ) (str : List UInt8) (dir : UInt8)
    (f : FontStyle) : Meets (guiDispStr b x y str dir f) ↔ StrFits x y str dir f := by
  unfold guiDispStr StrFits
  by_cases hdir : dir ≠ 0
  · rw [if_pos hdir, if_pos hdir]
    exact meets_checked_iff guiDispChars_inColumn_iff
  · rw [if_neg hdir, if_neg hdir]
    exact meets_checked_iff guiDispChars_inColumn_iff

/-! ## What is read -/

/-- A picture that is `width` columns of `height / 8` bytes has every byte that is stored. -/
theorem guiDispPic_reads {x y : ℕ} {pic : ℕ → Option UInt8} {width height : UInt8}
    (hpic : ∀ k < width.toNat * (height.toNat / 8), pic k ≠ none) :
    ∀ s ∈ (guiDispPic x y pic width height).stores, s.value ≠ none := by
  by_cases hin : xMax < x ∨ yMax < y
  · rw [guiDispPic_refused hin]
    nofun
  · intro s hs
    obtain ⟨i, hi, j, hj, rfl⟩ := (mem_stores_guiDispPic (by omega) (by omega)).mp hs
    -- column `i` is the bytes from `height / 8 * i` on, and is stored from its last one down
    have hcolumn : height.toNat / 8 * (1 + i) ≤ height.toNat / 8 * width.toNat :=
      Nat.mul_le_mul_left _ (by omega)
    have hfirst : height.toNat / 8 ≤ height.toNat / 8 * (1 + i) :=
      Nat.le_mul_of_pos_right _ (by omega)
    rw [Nat.mul_comm _ width.toNat] at hcolumn
    exact hpic _ (by omega)

theorem guiDispChar_reads {b : Bitmaps} {x y : ℕ} {c : UInt8} {f : FontStyle} {d : Drawn}
    (h : guiDispChar b x y c f = some d) : ∀ s ∈ d.stores, s.value ≠ none := by
  rcases guiDispChar_cases h with rfl | rfl | ⟨hc, rfl⟩
  · nofun
  · nofun
  · refine guiDispPic_reads fun k hk => ?_
    rw [← b.length_glyph f c hc] at hk
    rw [List.getElem?_eq_getElem hk]
    exact Option.some_ne_none _

theorem guiDispChars_reads {b : Bitmaps} {f : FontStyle} {dx dy : ℕ} {str : List UInt8} :
    ∀ {x y : ℕ} {stores : List ImageStore}, guiDispChars b f dx dy x y str = some stores →
      ∀ s ∈ stores, s.value ≠ none := by
  induction str with
  | nil =>
    intro x y stores h
    obtain rfl := Option.some.inj h
    nofun
  | cons c str ih =>
    intro x y stores h s hs
    obtain ⟨d, hd, hmap⟩ := Option.bind_eq_some_iff.mp h
    obtain ⟨rest, hrest, rfl⟩ := Option.map_eq_some_iff.mp hmap
    exact (List.mem_append.mp hs).elim (guiDispChar_reads hd s) (ih hrest s)

theorem guiDispStr_reads {b : Bitmaps} {x y : ℕ} {str : List UInt8} {dir : UInt8} {f : FontStyle}
    {d : Drawn} (h : guiDispStr b x y str dir f = some d) : ∀ s ∈ d.stores, s.value ≠ none := by
  have hloop : ∀ {dx dy}, ((guiDispChars b f dx dy x y str).map fun l =>
      (⟨.noError, l⟩ : Drawn)) = some d → ∀ s ∈ d.stores, s.value ≠ none := by
    intro dx dy h
    obtain ⟨l, hl, rfl⟩ := Option.map_eq_some_iff.mp h
    exact guiDispChars_reads hl
  rw [guiDispStr] at h
  by_cases hdir : dir ≠ 0
  · rw [if_pos hdir] at h
    rcases checked_cases h with rfl | h
    · nofun
    · exact hloop h
  · rw [if_neg hdir] at h
    rcases checked_cases h with rfl | h
    · nofun
    · exact hloop h

/-! ## The three functions -/

/-- The three drawing functions keep to the image and to the columns exactly where the picture, the
character and the string fit. -/
theorem gui_meets_iff (b : Bitmaps) (x y : ℕ) :
    (∀ pic width height,
      Meets (some (guiDispPic x y pic width height)) ↔ PicFits x y width height) ∧
    (∀ c f, Meets (guiDispChar b x y c f) ↔ CharFits x y c f) ∧
    ∀ str dir f, Meets (guiDispStr b x y str dir f) ↔ StrFits x y str dir f :=
  ⟨guiDispPic_meets_iff x y, guiDispChar_meets_iff b x y, guiDispStr_meets_iff b x y⟩

/-- 20 pixels from the top are 20 bytes for the store, in front of the image. -/
theorem guiDispPic_stores_before_image :
    (guiDispPic 0 20 (fun _ => some 0) 8 8).code = .noError ∧
      ⟨0, -5, some 0⟩ ∈ (guiDispPic 0 20 (fun _ => some 0) 8 8).stores ∧
      ¬ Meets (some (guiDispPic 0 20 (fun _ => some 0) 8 8)) := by
  have hmem : ⟨0, -5, some 0⟩ ∈ (guiDispPic 0 20 (fun _ => some 0) 8 8).stores :=
    List.mem_cons_self
  refine ⟨rfl, hmem, ?_⟩
  rintro ⟨d, hd, ⟨hne, -⟩ | ⟨-, hin⟩⟩
  · obtain rfl := Option.some.inj hd
    exact hne rfl
  · obtain rfl := Option.some.inj hd
    exact absurd (hin _ hmem).1 (by decide)

end TlBleSdk.Esl
