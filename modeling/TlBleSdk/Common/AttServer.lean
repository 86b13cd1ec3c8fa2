import TlBleSdk.Common.SdpDiscovery

/-!
# The attribute server of a peer

What a conforming peer answers to the requests of service discovery. Its database is a list of
declarations and of characteristics with their descriptors, with increasing handles. An answer
lists entries of one form from the start handle on: at least one, at most what the MTU holds, and
in between as many as the peer likes.
-/

namespace TlBleSdk.Common

open Hci

/-! ## The database -/

/-- The type of an attribute. -/
inductive AttUuid where
  | short (uuid : UInt16)
  | long (uuid : Vector UInt8 16)
  deriving DecidableEq

/-- The UUID in an answer. -/
def AttUuid.bytes : AttUuid → List UInt8
  | .short uuid => uint16ToBstream uuid.toNat
  | .long uuid => uuid.toList

def AttUuid.isShort : AttUuid → Bool
  | .short _ => true
  | .long _ => false

def characteristicType : AttUuid := .short (UInt16.ofNat declarationsUuidCharacteristic)
def primaryServiceType : AttUuid := .short (UInt16.ofNat declarationsUuidPrimaryService)
def reportType : AttUuid := .short (UInt16.ofNat characteristicUuidReport)
def referenceType : AttUuid := .short (UInt16.ofNat descriptorUuidReportReference)

/-- The types of declarations. -/
def declarationTypes : List AttUuid :=
  [primaryServiceType, .short (UInt16.ofNat declarationsUuidSecondaryService),
    .short (UInt16.ofNat declarationsUuidInclude), characteristicType]

structure Attribute where
  handle : ℕ
  type : AttUuid
  deriving DecidableEq

/-- A characteristic: its declaration, the attribute of its value, and its descriptors. -/
structure PeerChar where
  declHandle : ℕ
  property : UInt8
  handle : ℕ
  uuid : AttUuid
  descriptors : List Attribute

/-- The report reference of a characteristic. -/
def PeerChar.reference (c : PeerChar) : Option Attribute :=
  c.descriptors.find? fun d => d.type = referenceType

/-- A part of the database: the declaration of a service or an include, or a characteristic. -/
inductive AttItem where
  | declaration (x : Attribute)
  | char (c : PeerChar)

def AttItem.attributes : AttItem → List Attribute
  | .declaration x => [x]
  | .char c => ⟨c.declHandle, characteristicType⟩ :: ⟨c.handle, c.uuid⟩ :: c.descriptors

def AttItem.char? : AttItem → Option PeerChar
  | .declaration _ => none
  | .char c => some c

/-- The types are those of declarations or none of them, and a report reference has its two
bytes. -/
def AttItem.Conforming (value : ℕ → Option (List UInt8)) : AttItem → Prop
  | .declaration x => x.type ∈ declarationTypes
  | .char c => c.uuid ∉ declarationTypes ∧ ∀ d ∈ c.descriptors, d.type ∉ declarationTypes ∧
      (d.type = referenceType → (value d.handle).map List.length = some 2)

instance (value : ℕ → Option (List UInt8)) : ∀ item, Decidable (AttItem.Conforming value item)
  | .declaration _ => inferInstanceAs (Decidable (_ ∈ _))
  | .char c => inferInstanceAs (Decidable (c.uuid ∉ declarationTypes ∧ ∀ d ∈ c.descriptors,
      d.type ∉ declarationTypes ∧
        (d.type = referenceType → (value d.handle).map List.length = some 2)))

/-- An attribute database, with the values that may be read. -/
structure AttDatabase where
  items : List AttItem
  value : ℕ → Option (List UInt8)
  sorted : (items.flatMap AttItem.attributes).Pairwise fun x y => x.handle < y.handle
  range : ∀ x ∈ items.flatMap AttItem.attributes, 0 < x.handle ∧ x.handle ≤ 0xFFFF
  conforming : ∀ item ∈ items, item.Conforming value

namespace AttDatabase

def attributes (db : AttDatabase) : List Attribute := db.items.flatMap AttItem.attributes

/-- The characteristics in the order of their handles. -/
def chars (db : AttDatabase) : List PeerChar := db.items.filterMap AttItem.char?

/-- The value of a report reference. -/
def refValue (db : AttDatabase) (d : Attribute) : ℕ :=
  match db.value d.handle with
  | some v => bytesToUint16 (mem v) 0
  | none => 0

end AttDatabase

/-! ## The answers -/

/-- Entries of the form of the first one, and as many as `count` says for it. -/
def page {α : Type*} (form : α → Bool) (count : α → ℕ) : List α → List α
  | [] => []
  | x :: xs => (x :: xs.takeWhile fun y => form y = form x).take (count x)

/-- An attribute server. How many entries it lists may depend on the start handle. -/
structure AttServer where
  db : AttDatabase
  mtu : ℕ
  charCount : ℕ → ℕ
  infoCount : ℕ → ℕ
  mtu_ge : 23 ≤ mtu
  mtu_lt : mtu < 65536

/-- `Error Response`. -/
def errorRsp (op : UInt8) (handle : ℕ) (code : UInt8) : List UInt8 :=
  [attOpErrorRsp, op] ++ uint16ToBstream handle ++ [code]

/-- A characteristic declaration with its handle, in an answer. -/
def PeerChar.entry (c : PeerChar) : List UInt8 :=
  uint16ToBstream c.declHandle ++ c.property :: uint16ToBstream c.handle ++ c.uuid.bytes

/-- A handle with its type, in an answer. -/
def Attribute.entry (x : Attribute) : List UInt8 := uint16ToBstream x.handle ++ x.type.bytes

namespace AttServer

/-- The characteristics that are listed from `start` on. -/
def charPage (srv : AttServer) (start : ℕ) : List PeerChar :=
  page (·.uuid.isShort) (fun c => min (1 + srv.charCount start) ((srv.mtu - 2) / c.entry.length))
    (srv.db.chars.filter fun c => start ≤ c.declHandle)

/-- The attributes that are listed from `start` on. -/
def infoPage (srv : AttServer) (start : ℕ) : List Attribute :=
  page (·.type.isShort) (fun x => min (1 + srv.infoCount start) ((srv.mtu - 2) / x.entry.length))
    (srv.db.attributes.filter fun x => start ≤ x.handle)

/-- The answer to a request. The end of the range is the last handle. -/
def answer (srv : AttServer) : AttRequest → List UInt8
  | .readByType start =>
    match srv.charPage start with
    | [] => errorRsp attOpReadByTypeReq start 0x0A
    | c :: cs =>
      attOpReadByTypeRsp :: UInt8.ofNat c.entry.length :: (c :: cs).flatMap PeerChar.entry
  | .findInformation start =>
    match srv.infoPage start with
    | [] => errorRsp attOpFindInformationReq start 0x0A
    | x :: xs => attOpFindInfoRsp :: (if x.type.isShort then 1 else 2) ::
        (x :: xs).flatMap Attribute.entry
  | .read handle =>
    match srv.db.value handle with
    | some v => attOpReadRsp :: v.take (srv.mtu - 1)
    | none => errorRsp attOpReadReq handle 0x02

end AttServer

/-- An answer as the packet that is handed to the handler. -/
def attPacket (connHandle : ℕ) (att : List UInt8) : AttPacket :=
  ⟨connHandle, mem ([0x02, UInt8.ofNat (att.length + 4)] ++ uint16ToBstream att.length ++
    uint16ToBstream 4 ++ att)⟩

/-- The peer answers each request in time. -/
def AttServer.calls (srv : AttServer) (a : SdpArgs) (st : SdpState) : List (List AttPacket) :=
  match st.request with
  | some request => [[attPacket a.handle (srv.answer request)], []]
  | none => []

/-! ## Pages -/

section Page

variable {α : Type*} {form : α → Bool} {count : α → ℕ} {l : List α} {x y : α}

theorem page_prefix (form : α → Bool) (count : α → ℕ) (l : List α) : page form count l <+: l := by
  cases l with
  | nil => exact List.prefix_rfl
  | cons x xs =>
    refine (List.take_prefix _ _).trans ?_
    exact List.cons_prefix_cons.mpr ⟨rfl, List.takeWhile_prefix _⟩

theorem eq_cons_of_page (hx : (page form count l).head? = some x) : ∃ xs, l = x :: xs := by
  obtain ⟨ys, hpage⟩ := List.head?_eq_some_iff.mp hx
  obtain ⟨t, ht⟩ := page_prefix form count l
  rw [hpage] at ht
  exact ⟨ys ++ t, ht.symm⟩

/-- All entries have the form of the first one. -/
theorem form_of_mem_page (hx : (page form count l).head? = some x) (hy : y ∈ page form count l) :
    form y = form x := by
  obtain ⟨xs, rfl⟩ := eq_cons_of_page hx
  rcases List.mem_cons.mp (List.mem_of_mem_take hy) with rfl | hy
  · rfl
  · exact of_decide_eq_true (List.all_eq_true.mp List.all_takeWhile y hy)

/-- A page that lists something is the head of what is left, in one form. -/
theorem eq_append_of_page {xs : List α} (h : page form count l = x :: xs) :
    (∀ y ∈ x :: xs, form y = form x) ∧ ∃ rest, l = x :: xs ++ rest := by
  have hhead : (page form count l).head? = some x := by
    rw [h]
    rfl
  constructor
  · intro y hy
    exact form_of_mem_page hhead (h ▸ hy)
  · obtain ⟨rest, hrest⟩ := page_prefix form count l
    exact ⟨rest, by rw [← hrest, h]⟩

theorem page_eq_nil (hcount : ∀ x, 0 < count x) : page form count l = [] ↔ l = [] := by
  cases l with
  | nil => exact Iff.rfl
  | cons x xs =>
    rw [page, List.take_eq_nil_iff]
    have hpos := hcount x
    simp
    omega

theorem length_page_le (hx : (page form count l).head? = some x) :
    (page form count l).length ≤ count x := by
  obtain ⟨xs, rfl⟩ := eq_cons_of_page hx
  rw [page, List.length_take]
  exact Nat.min_le_left _ _

end Page

/-! ## Lengths of answers -/

@[simp] theorem AttUuid.length_bytes (uuid : AttUuid) :
    uuid.bytes.length = if uuid.isShort then 2 else 16 := by
  cases uuid with
  | short uuid => rfl
  | long uuid => exact uuid.length_toList

theorem PeerChar.length_entry (c : PeerChar) :
    c.entry.length = if c.uuid.isShort then 7 else 21 := by
  unfold PeerChar.entry
  rw [List.length_append, AttUuid.length_bytes]
  split <;> rfl

theorem Attribute.length_entry (x : Attribute) :
    x.entry.length = if x.type.isShort then 4 else 18 := by
  unfold Attribute.entry
  rw [List.length_append, AttUuid.length_bytes]
  split <;> rfl

theorem length_flatMap_of_forall {α : Type*} {f : α → List UInt8} {n : ℕ} {l : List α}
    (h : ∀ x ∈ l, (f x).length = n) : (l.flatMap f).length = l.length * n := by
  induction l with
  | nil => simp
  | cons x l ih =>
    rw [List.flatMap_cons, List.length_append, h x List.mem_cons_self,
      ih fun y hy => h y (List.mem_cons_of_mem _ hy), List.length_cons, Nat.add_mul]
    omega

theorem charCount_pos (srv : AttServer) (start : ℕ) (c : PeerChar) :
    0 < min (1 + srv.charCount start) ((srv.mtu - 2) / c.entry.length) := by
  have hmtu := srv.mtu_ge
  have hlen : 0 < c.entry.length ∧ c.entry.length ≤ 21 := by
    rw [c.length_entry]
    split <;> decide
  have hdiv : 1 ≤ (srv.mtu - 2) / c.entry.length :=
    (Nat.one_le_div_iff hlen.1).mpr (by omega)
  omega

theorem infoCount_pos (srv : AttServer) (start : ℕ) (x : Attribute) :
    0 < min (1 + srv.infoCount start) ((srv.mtu - 2) / x.entry.length) := by
  have hmtu := srv.mtu_ge
  have hlen : 0 < x.entry.length ∧ x.entry.length ≤ 18 := by
    rw [x.length_entry]
    split <;> decide
  have hdiv : 1 ≤ (srv.mtu - 2) / x.entry.length :=
    (Nat.one_le_div_iff hlen.1).mpr (by omega)
  omega

/-- As many entries as the MTU holds. -/
theorem length_entries_le {α : Type*} (form : α → Bool) {entry : α → List UInt8} {n mtu : ℕ}
    {l : List α} {x : α} (hform : ∀ x y, form x = form y → (entry x).length = (entry y).length)
    (hx : (page form (fun x => min n ((mtu - 2) / (entry x).length)) l).head? = some x) :
    ((page form (fun x => min n ((mtu - 2) / (entry x).length)) l).flatMap entry).length ≤
      mtu - 2 := by
  rw [length_flatMap_of_forall fun y hy => hform _ _ (form_of_mem_page hx hy)]
  have hle := Nat.le_trans (length_page_le hx) (Nat.min_le_right _ _)
  exact Nat.le_trans (Nat.mul_le_mul_right _ hle) (Nat.div_mul_le_self _ _)

/-- An answer is within the MTU. -/
theorem AttServer.length_answer_le (srv : AttServer) (request : AttRequest) :
    (srv.answer request).length ≤ srv.mtu := by
  have hmtu := srv.mtu_ge
  have herror : ∀ op handle code, (errorRsp op handle code).length ≤ srv.mtu := by
    intro op handle code
    show 5 ≤ srv.mtu
    omega
  cases request with
  | readByType start =>
    dsimp only [answer]
    split
    · exact herror _ _ _
    · rename_i c cs hpage
      have hhead : (srv.charPage start).head? = some c := by rw [hpage]; rfl
      have hlen : ((srv.charPage start).flatMap PeerChar.entry).length ≤ srv.mtu - 2 :=
        length_entries_le (fun c : PeerChar => c.uuid.isShort) (fun c c' hform => by
          rw [c.length_entry, c'.length_entry, hform]) hhead
      rw [hpage] at hlen
      rw [List.length_cons, List.length_cons]
      omega
  | findInformation start =>
    dsimp only [answer]
    split
    · exact herror _ _ _
    · rename_i x xs hpage
      have hhead : (srv.infoPage start).head? = some x := by rw [hpage]; rfl
      have hlen : ((srv.infoPage start).flatMap Attribute.entry).length ≤ srv.mtu - 2 :=
        length_entries_le (fun x : Attribute => x.type.isShort) (fun x y hform => by
          rw [x.length_entry, y.length_entry, hform]) hhead
      rw [hpage] at hlen
      rw [List.length_cons, List.length_cons]
      omega
  | read handle =>
    dsimp only [answer]
    split
    · rw [List.length_cons, List.length_take]
      omega
    · exact herror _ _ _

/-! ## The order of the handles -/

namespace AttDatabase

variable {db : AttDatabase} {c : PeerChar}

theorem mem_chars : c ∈ db.chars ↔ AttItem.char c ∈ db.items := by
  unfold chars
  rw [List.mem_filterMap]
  constructor
  · rintro ⟨item, hitem, hc⟩
    cases item with
    | declaration x => cases hc
    | char c' =>
      cases hc
      exact hitem
  · intro h
    exact ⟨_, h, rfl⟩

theorem sorted_item {item : AttItem} (hitem : item ∈ db.items) :
    item.attributes.Pairwise fun x y => x.handle < y.handle :=
  (List.pairwise_flatMap.mp db.sorted).1 item hitem

theorem mem_attributes {item : AttItem} (hitem : item ∈ db.items) {x : Attribute}
    (hx : x ∈ item.attributes) : x ∈ db.attributes :=
  List.mem_flatMap.mpr ⟨item, hitem, hx⟩

/-- A characteristic is declared before its value. -/
theorem declHandle_lt (hc : c ∈ db.chars) : c.declHandle < c.handle :=
  (List.pairwise_cons.mp (sorted_item (mem_chars.mp hc))).1 _ List.mem_cons_self

theorem handle_lt (hc : c ∈ db.chars) : c.handle < 65536 := by
  have hmem := mem_attributes (mem_chars.mp hc) (x := ⟨c.handle, c.uuid⟩)
    (List.mem_cons_of_mem _ List.mem_cons_self)
  exact Nat.lt_succ_of_le (db.range _ hmem).2

theorem declHandle_pos (hc : c ∈ db.chars) : 0 < c.declHandle :=
  (db.range _ (mem_attributes (mem_chars.mp hc) List.mem_cons_self)).1

/-- The value of a characteristic comes before the declaration of the next one. -/
theorem chars_pairwise (db : AttDatabase) :
    db.chars.Pairwise fun c c' => c.handle < c'.declHandle := by
  refine List.pairwise_filterMap.mpr ((List.pairwise_flatMap.mp db.sorted).2.imp ?_)
  intro item item' h c hc c' hc'
  cases item with
  | declaration x => cases hc
  | char =>
    cases item' with
    | declaration x => cases hc'
    | char =>
      cases hc
      cases hc'
      exact h _ (List.mem_cons_of_mem _ List.mem_cons_self) _ List.mem_cons_self

/-- The attributes from the value of a characteristic on: its descriptors come first. -/
theorem filter_handle (hc : c ∈ db.chars) : ∃ later,
    (db.attributes.filter fun x => c.handle ≤ x.handle) =
      ⟨c.handle, c.uuid⟩ :: c.descriptors ++ later := by
  obtain ⟨before, behind, hitems⟩ := List.append_of_mem (mem_chars.mp hc)
  have hall : db.attributes = before.flatMap AttItem.attributes ++
      ⟨c.declHandle, characteristicType⟩ :: (⟨c.handle, c.uuid⟩ :: c.descriptors ++
        behind.flatMap AttItem.attributes) := by
    rw [attributes, hitems, List.flatMap_append, List.flatMap_cons]
    rfl
  have hsorted := db.sorted
  change db.attributes.Pairwise _ at hsorted
  rw [hall, List.pairwise_append, List.pairwise_cons] at hsorted
  obtain ⟨-, ⟨hdecl, hrest⟩, hbefore⟩ := hsorted
  have hvalue := (List.pairwise_cons.mp hrest).1
  refine ⟨behind.flatMap AttItem.attributes, ?_⟩
  rw [hall, List.filter_append, List.filter_cons_of_neg, List.filter_eq_nil_iff.mpr,
    List.nil_append, List.filter_eq_self]
  · intro x hx
    rcases List.mem_cons.mp hx with rfl | hx
    · exact decide_eq_true (Nat.le_refl c.handle)
    · exact decide_eq_true (Nat.le_of_lt (hvalue x hx))
  · intro x hx
    have hlt := hbefore x hx ⟨c.handle, c.uuid⟩ (List.mem_cons_of_mem _ List.mem_cons_self)
    simpa using hlt
  · have hlt := hdecl ⟨c.handle, c.uuid⟩ List.mem_cons_self
    simpa using hlt

end AttDatabase

end TlBleSdk.Common
