import Mathlib.Data.Int.Notation
import Mathlib.Data.List.TakeWhile
import TlBleSdk.Esl.Gui
import TlBleSdk.Esl.VendorImage

/-!
# The vendor image

`app_vendor_image_get_image`, which draws the buffers of the categories. It first ends the texts,
and then everything is drawn at a place that is fixed or that the lengths of the currency code and
of the price give. A text that is read behind its array, or a font table without an end, gives no
image.
-/

namespace TlBleSdk.Esl

open Hci

/-! ## The buffers -/

/-- The categories of the texts with the sizes of their arrays, in the order they are ended. -/
def textBuffers : List (ℕ × ℕ) := [(0, 24), (2, 24), (8, 5), (9, 3), (7, 4), (1, 12), (4, 12)]

/-- `buf[sizeof(buf) - 1] = 0`. -/
def endText (s : VendorImage) (t : ℕ × ℕ) : VendorImage :=
  Function.update s t.1 (Function.update (s t.1) (t.2 - 1) 0)

/-- The buffers with their texts ended. -/
def endTexts (s : VendorImage) : VendorImage := textBuffers.foldl endText s

/-- The string in an array of `n` bytes. `strlen` must not go on behind the array. -/
def cStringIn (p : ℕ → UInt8) (n : ℕ) : Option (List UInt8) :=
  if 0 ∈ bytes p n then some ((bytes p n).takeWhile fun c => c ≠ 0) else none

/-- `currency_codes`. -/
def currencyCodes : List (List Char × Char) :=
  [(['C', 'N', 'Y'], 'Y'), (['U', 'S', 'D'], '$'), (['E', 'U', 'R'], 'E'), (['G', 'B', 'P'], 'F')]

/-- `tolower`. -/
def toLower (c : UInt8) : UInt8 := if 'A'.toUInt8 ≤ c ∧ c ≤ 'Z'.toUInt8 then c + 32 else c

/-- `get_currency_symbol`. -/
def getCurrencySymbol (curCode : List UInt8) : UInt8 :=
  match currencyCodes.find? fun e =>
    (e.1.map Char.toUInt8).map toLower = curCode.map toLower with
  | some e => e.2.toUInt8
  | none => 0

/-! ## The drawing -/

/-- A text from left to right. -/
def dispText (b : Bitmaps) (x y : ℕ) (str : List UInt8) (f : FontStyle) :
    Option (List ImageStore) :=
  (guiDispStr b x y str 1 f).map (·.stores)

/-- The picture that the category for it names. -/
def dispPicture (b : Bitmaps) (s : VendorImage) : List ImageStore :=
  if s 5 0 = 1 ∧ (s 5 1).toNat < b.pics.length / 288 then
    (guiDispPic 220 6 (fun k => b.pics[288 * (s 5 1).toNat + k]?) 48 48).stores
  else []

/-- The currency symbol, or else the code, and the `position_marker` behind it. -/
def dispCurrency (b : Bitmaps) (s : VendorImage) : Option (ℕ × List ImageStore) :=
  if s 7 0 ≠ 0 then
    (cStringIn (s 7) 4).bind fun code =>
      let symbol := getCurrencySymbol code
      if symbol = 0 then
        (cStringIn (fun i => if i < 3 then s 7 i else 0) 4).bind fun code =>
          (dispText b 6 5 code .font8x16).map fun stores => (u16 (6 + code.length * 8), stores)
      else (dispText b 6 4 [symbol] .font16x32).map fun stores => (u16 (6 + 1 * 16), stores)
  else some (0, [])

/-- A turn of `bar_code_render`, for a bit: four bytes are set, and the next bit is two bytes on. -/
def barCodeStep (barCode : ℕ → UInt8) (rendered : ℕ → Option UInt8) (k : ℕ) : ℕ → Option UInt8 :=
  let black := (barCode (k / 8)).toNat.testBit (7 - k % 8)
  fun a => if 2 * k ≤ a ∧ a < 2 * k + 4 then some (if black then 0x00 else 0xff) else rendered a

/-- `bar_code_render`: the bytes of `bar_code_rendered` that are set. -/
def barCodeRender (barCode : ℕ → UInt8) : ℕ → Option UInt8 :=
  (List.range (24 * 8)).foldl (barCodeStep barCode) fun _ => none

/-- `app_vendor_image_get_image`: the buffers behind it, and the stores to the image. -/
def appVendorImageGetImage (b : Bitmaps) (s : VendorImage) :
    Option (VendorImage × List ImageStore) := do
  let s := endTexts s
  let productName ← cStringIn (s 0) 24
  let nameStores ← dispText b 6 0 productName .font8x16
  let productDesc ← cStringIn (s 2) 24
  let descStores ← dispText b 6 2 productDesc .font8x16
  let (positionMarker, currencyStores) ← dispCurrency b s
  let productPriceMajor ← cStringIn (s 8) 5
  let majorStores ← dispText b positionMarker 4 productPriceMajor .font32x56
  let positionMarker := u16 (positionMarker + productPriceMajor.length * 32)
  let productPriceMinor ← cStringIn (s 9) 3
  let minorStores ← dispText b (positionMarker + 4) 4 productPriceMinor .font16x32
  let unitOfMeasure ← cStringIn (s 1) 12
  let unitStores ← dispText b (positionMarker + 4) 9 unitOfMeasure .font8x16
  let barCodeStores := (guiDispPic 6 12 (barCodeRender (s 3)) 192 16).stores
  let barCodeNum ← cStringIn (s 4) 12
  let numStores ← dispText b 60 14 barCodeNum .font8x16
  return (s, guiClear 1 ++ nameStores ++ dispPicture b s ++ descStores ++ currencyStores ++
    majorStores ++ minorStores ++ unitStores ++ barCodeStores ++ numStores)

/-- The image behind a store. -/
def ImageStore.apply (image : ℤ → UInt8) (s : ImageStore) : ℤ → UInt8 :=
  match s.value with
  | some v => Function.update image s.index v
  | none => image

/-- The image behind the stores. -/
def applyStores (image : ℤ → UInt8) (stores : List ImageStore) : ℤ → UInt8 :=
  stores.foldl ImageStore.apply image

/-! ## The texts -/

theorem endTexts_last (s : VendorImage) : ∀ t ∈ textBuffers, endTexts s t.1 (t.2 - 1) = 0 := by
  simp [textBuffers, endTexts, endText, Function.update]

/-- A text that ends with its array is a string in front of that end. -/
theorem cStringIn_of_last {p : ℕ → UInt8} {n : ℕ} (hn : 0 < n) (h : p (n - 1) = 0) :
    ∃ str, cStringIn p n = some str ∧ str.length < n := by
  have hmem : 0 ∈ bytes p n := List.mem_map.mpr ⟨n - 1, List.mem_range.mpr (by omega), h⟩
  refine ⟨_, if_pos hmem, ?_⟩
  have hprefix := List.takeWhile_prefix (fun c => decide (c ≠ 0)) (l := bytes p n)
  have hle := hprefix.length_le
  rw [length_bytes] at hle
  by_contra hge
  -- or the end would be a character of the string
  have heq := hprefix.eq_of_length (by rw [length_bytes]; omega)
  rw [← heq] at hmem
  simpa using List.mem_takeWhile_imp hmem

theorem cStringIn_endTexts (s : VendorImage) {cat n : ℕ} (hmem : (cat, n) ∈ textBuffers) :
    ∃ str, cStringIn (endTexts s cat) n = some str ∧ str.length < n := by
  have hpos : ∀ t ∈ textBuffers, 0 < t.2 := by decide
  exact cStringIn_of_last (hpos _ hmem) (endTexts_last s _ hmem)

/-! ## The stores -/

/-- The store is to the image, and its value is read. -/
def ImageStore.Safe (s : ImageStore) : Prop := 0 ≤ s.index ∧ s.index ≤ 4735 ∧ s.value ≠ none

theorem guiDispPic_safe {x y : ℕ} {pic : ℕ → Option UInt8} {width height : UInt8}
    (hx : x + width.toNat ≤ xMax) (hy : y + height.toNat / 8 ≤ 16)
    (hpic : ∀ k < width.toNat * (height.toNat / 8), pic k ≠ none) :
    ∀ s ∈ (guiDispPic x y pic width height).stores, s.Safe := by
  intro s hs
  have hmax : y ≤ yMax := Nat.le_trans (by omega : y ≤ 16) (by decide)
  have hfits : PicFits x y width height := .inr (.inr (.inr (.inr ⟨hx, hy⟩)))
  obtain ⟨hlo, hhi, -⟩ := (guiDispPic_inColumn_iff pic width height (by omega) hmax).mpr hfits s hs
  exact ⟨hlo, hhi, guiDispPic_reads hpic s hs⟩

/-- A text whose right and lower edges are in the image, the lower one in bytes. -/
theorem dispText_safe (b : Bitmaps) (x y : ℕ) (str : List UInt8) (f : FontStyle)
    (hx : str.length * f.width.toNat + x ≤ xMax) (hy : y + f.height.toNat / 8 ≤ 16) :
    ∃ l, dispText b x y str f = some l ∧ ∀ s ∈ l, s.Safe := by
  have hmax : xMax < 2 ^ 31 := by decide
  have hheight := f.height.toNat_lt
  have hfits : StrFits x y str 1 f := by
    rw [StrFits, if_pos (by decide)]
    refine ⟨by omega, .inr fun i c hi => ?_⟩
    obtain ⟨hlt, -⟩ := List.getElem?_eq_some_iff.mp hi
    have hright : (i + 1) * f.width.toNat ≤ str.length * f.width.toNat :=
      Nat.mul_le_mul_right _ hlt
    rw [Nat.add_one_mul] at hright
    exact ⟨by omega, .inr ⟨by omega, .inr (.inr (by omega))⟩⟩
  obtain ⟨d, hd, hmeets⟩ := (guiDispStr_meets_iff b x y str 1 f).mpr hfits
  refine ⟨d.stores, by rw [dispText, hd, Option.map_some], fun s hs => ?_⟩
  rcases hmeets with ⟨-, hnone⟩ | ⟨-, hin⟩
  · rw [hnone] at hs
    exact absurd hs List.not_mem_nil
  · exact ⟨(hin s hs).1, (hin s hs).2.1, guiDispStr_reads hd s hs⟩

theorem dispPicture_safe (b : Bitmaps) (s : VendorImage) : ∀ st ∈ dispPicture b s, st.Safe := by
  unfold dispPicture
  split
  case isFalse => nofun
  case isTrue h =>
    refine guiDispPic_safe (by decide) (by decide) fun k hk => ?_
    -- the picture is one of the eight
    have hlt : 288 * (s 5 1).toNat + k < b.pics.length := by
      have hpics := b.length_pics
      have hindex := h.2
      change k < 288 at hk
      omega
    rw [List.getElem?_eq_getElem hlt]
    exact Option.some_ne_none _

/-- The marker is in the first 30 columns. -/
theorem dispCurrency_safe (b : Bitmaps) {s : VendorImage} (hlast : s 7 3 = 0) :
    ∃ position stores, dispCurrency b s = some (position, stores) ∧ position ≤ 30 ∧
      ∀ st ∈ stores, st.Safe := by
  unfold dispCurrency
  by_cases hcode : s 7 0 ≠ 0
  · obtain ⟨code, hstr, -⟩ := cStringIn_of_last (p := s 7) (by decide : 0 < 4) hlast
    rw [if_pos hcode, hstr, Option.bind_some]
    by_cases hsymbol : getCurrencySymbol code = 0
    · obtain ⟨code', hstr', hlen⟩ :=
        cStringIn_of_last (p := fun i => if i < 3 then s 7 i else 0) (by decide : 0 < 4) rfl
      obtain ⟨l, hl, hsafe⟩ := dispText_safe b 6 5 code' .font8x16
        (by change code'.length * 8 + 6 ≤ 296; omega) (by decide)
      refine ⟨u16 (6 + code'.length * 8), l, ?_, ?_, hsafe⟩
      · dsimp only
        rw [if_pos hsymbol, hstr', Option.bind_some, hl, Option.map_some]
      · rw [u16_of_lt (by omega)]
        omega
    · obtain ⟨l, hl, hsafe⟩ := dispText_safe b 6 4 [getCurrencySymbol code] .font16x32
        (by change 1 * 16 + 6 ≤ 296; decide) (by decide)
      refine ⟨22, l, ?_, by decide, hsafe⟩
      dsimp only
      rw [if_neg hsymbol, hl]
      rfl
  · rw [if_neg hcode]
    exact ⟨0, [], rfl, by decide, nofun⟩

/-! ## The bar code -/

/-- After `n` bits the bytes up to the last four are set. -/
theorem barCodeRender_turns (barCode : ℕ → UInt8) (n a : ℕ) :
    (List.range n).foldl (barCodeStep barCode) (fun _ => none) a ≠ none ↔
      0 < n ∧ a < 2 * n + 2 := by
  induction n with
  | zero => simp
  | succ n ih =>
    rw [List.range_succ, List.foldl_append, List.foldl_cons, List.foldl_nil, barCodeStep]
    dsimp only
    by_cases hset : 2 * n ≤ a ∧ a < 2 * n + 4
    · rw [if_pos hset]
      exact iff_of_true (Option.some_ne_none _) (by omega)
    · rw [if_neg hset, ih]
      omega

/-- The bytes that are set are in the array of 768, and more than the picture needs. -/
theorem barCodeRender_ne_none_iff (barCode : ℕ → UInt8) (a : ℕ) :
    barCodeRender barCode a ≠ none ↔ a < 386 := by
  rw [barCodeRender, barCodeRender_turns]
  omega

/-! ## The image -/

theorem guiClear_safe (colour : UInt8) : ∀ s ∈ guiClear colour, s.Safe := by
  intro s hs
  obtain ⟨k, hk, rfl⟩ := List.mem_map.mp hs
  have hlt : k < 4736 := List.mem_range.mp hk
  refine ⟨by dsimp only; omega, by dsimp only; omega, ?_⟩
  exact Option.some_ne_none _

theorem writes_apply (s : ImageStore) :
    Stores.Writes (fun image => s.apply image) {i | s.value ≠ none ∧ i = s.index} := by
  obtain ⟨column, index, value⟩ := s
  cases value with
  | none => exact ⟨fun _ h => absurd rfl h.1, fun _ _ _ => rfl⟩
  | some v =>
    constructor
    · rintro i ⟨-, rfl⟩ image image'
      have hstored : ∀ m : ℤ → UInt8, Function.update m i v i = v :=
        fun m => Function.update_self i v m
      exact (hstored image).trans (hstored image').symm
    · intro i hi image
      exact Function.update_of_ne (fun heq => hi ⟨Option.some_ne_none _, heq⟩) _ _

/-- The image is cleared first, so that nothing of it stays. -/
theorem applyStores_guiClear (colour : UInt8) (stores : List ImageStore) (image image' : ℤ → UInt8)
    {i : ℤ} (hlo : 0 ≤ i) (hhi : i ≤ 4735) :
    applyStores image (guiClear colour ++ stores) i =
      applyStores image' (guiClear colour ++ stores) i := by
  refine (Stores.Writes.foldl writes_apply _).written i ?_ image image'
  have hmem : ⟨i.toNat / 16, i.toNat, some (if colour ≠ 0 then 0xff else 0)⟩ ∈ guiClear colour :=
    List.mem_map.mpr ⟨i.toNat, List.mem_range.mpr (by unfold epdDataSize; omega), rfl⟩
  exact ⟨_, List.mem_append_left _ hmem, Option.some_ne_none _, by dsimp only; omega⟩

/-- Whatever the buffers of the categories hold, an image is drawn, all stores are to it and have a
byte of a table, and nothing of it depends on what it was before. -/
theorem appVendorImageGetImage_safe (b : Bitmaps) (s : VendorImage) :
    ∃ s' stores, appVendorImageGetImage b s = some (s', stores) ∧ (∀ st ∈ stores, st.Safe) ∧
      ∀ image image' : ℤ → UInt8, ∀ i, 0 ≤ i → i ≤ 4735 →
        applyStores image stores i = applyStores image' stores i := by
  obtain ⟨name, hname, hnameLen⟩ := cStringIn_endTexts s (by decide : (0, 24) ∈ textBuffers)
  obtain ⟨desc, hdesc, hdescLen⟩ := cStringIn_endTexts s (by decide : (2, 24) ∈ textBuffers)
  obtain ⟨major, hmajor, hmajorLen⟩ := cStringIn_endTexts s (by decide : (8, 5) ∈ textBuffers)
  obtain ⟨minor, hminor, hminorLen⟩ := cStringIn_endTexts s (by decide : (9, 3) ∈ textBuffers)
  obtain ⟨unit, hunit, hunitLen⟩ := cStringIn_endTexts s (by decide : (1, 12) ∈ textBuffers)
  obtain ⟨num, hnum, hnumLen⟩ := cStringIn_endTexts s (by decide : (4, 12) ∈ textBuffers)
  have hcode : endTexts s 7 3 = 0 := endTexts_last s (7, 4) (by decide)
  obtain ⟨position, currencyStores, hcurrency, hposition, hcurrencySafe⟩ :=
    dispCurrency_safe b hcode
  -- the places of the texts behind the currency
  have hbehind : u16 (position + major.length * 32) = position + major.length * 32 :=
    u16_of_lt (by omega)
  obtain ⟨nameStores, hnameStores, hnameSafe⟩ := dispText_safe b 6 0 name .font8x16
    (by change name.length * 8 + 6 ≤ 296; omega) (by decide)
  obtain ⟨descStores, hdescStores, hdescSafe⟩ := dispText_safe b 6 2 desc .font8x16
    (by change desc.length * 8 + 6 ≤ 296; omega) (by decide)
  obtain ⟨majorStores, hmajorStores, hmajorSafe⟩ := dispText_safe b position 4 major .font32x56
    (by change major.length * 32 + position ≤ 296; omega) (by decide)
  obtain ⟨minorStores, hminorStores, hminorSafe⟩ :=
    dispText_safe b (position + major.length * 32 + 4) 4 minor .font16x32
      (by change minor.length * 16 + (position + major.length * 32 + 4) ≤ 296; omega) (by decide)
  obtain ⟨unitStores, hunitStores, hunitSafe⟩ :=
    dispText_safe b (position + major.length * 32 + 4) 9 unit .font8x16
      (by change unit.length * 8 + (position + major.length * 32 + 4) ≤ 296; omega) (by decide)
  obtain ⟨numStores, hnumStores, hnumSafe⟩ := dispText_safe b 60 14 num .font8x16
    (by change num.length * 8 + 60 ≤ 296; omega) (by decide)
  have hbarSafe : ∀ st ∈ (guiDispPic 6 12 (barCodeRender (endTexts s 3)) 192 16).stores,
      st.Safe := by
    refine guiDispPic_safe (by decide) (by decide) fun k hk => ?_
    change k < 384 at hk
    exact (barCodeRender_ne_none_iff _ k).mpr (by omega)
  refine ⟨endTexts s, guiClear 1 ++ nameStores ++ dispPicture b (endTexts s) ++ descStores ++
    currencyStores ++ majorStores ++ minorStores ++ unitStores ++
    (guiDispPic 6 12 (barCodeRender (endTexts s 3)) 192 16).stores ++ numStores, ?_, ?_, ?_⟩
  · simp only [appVendorImageGetImage, hname, hdesc, hmajor, hminor, hunit, hnum, hcurrency,
      hbehind, hnameStores, hdescStores, hmajorStores, hminorStores, hunitStores, hnumStores,
      Option.bind_eq_bind, Option.bind_some, Option.pure_def]
  · intro st hst
    simp only [List.mem_append] at hst
    rcases hst with ((((((((hst | hst) | hst) | hst) | hst) | hst) | hst) | hst) | hst) | hst
    · exact guiClear_safe 1 st hst
    · exact hnameSafe st hst
    · exact dispPicture_safe b _ st hst
    · exact hdescSafe st hst
    · exact hcurrencySafe st hst
    · exact hmajorSafe st hst
    · exact hminorSafe st hst
    · exact hunitSafe st hst
    · exact hbarSafe st hst
    · exact hnumSafe st hst
  · intro image image' i hlo hhi
    simp only [List.append_assoc]
    exact applyStores_guiClear 1 _ image image' hlo hhi

end TlBleSdk.Esl
