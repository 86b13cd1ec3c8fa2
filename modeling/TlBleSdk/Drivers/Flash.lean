import TlBleSdk.Hci.TrDef
import TlBleSdk.Lib.NorFlash

/-!
# Page programming

`flash_write` of the B91 flash driver: the request is cut at the pages of 256 bytes, and each part
is one page-program command. The buffer is in the RAM, or in the window through which the CPU sees
the flash; then every part is copied to the stack first.
-/

namespace TlBleSdk.Drivers

open NorFlash

/-- `PAGE_SIZE`. -/
def pageSize : ℕ := 256

/-- `FLASH_ADDR_BASE`. -/
def flashAddrBase : ℕ := 0x20000000

/-- `FLASH_ADDR_MASK`. -/
def flashAddrMask : ℕ := 0xf0000000

/-- `STACK_SIZE_FOR_FLASH_DATA`. -/
def stackSizeForFlashData : ℕ := 256

/-- The commands of `flash_command_e` that `flash_write` is called with. -/
inductive FlashCommand
  | flashWriteCmd
  | flashQuadPageProgramCmd
deriving DecidableEq

/-- A page-program command: what `flash_mspi_write_ram` is called with. -/
structure PageProgram where
  cmd : FlashCommand
  addr : ℕ
  data : List UInt8
deriving DecidableEq

/-- The machine: RAM, flash, and the page-program commands so far. -/
structure Mach where
  ram : ℕ → UInt8
  cells : Cells
  issued : List PageProgram

/-- A pointer into the window of the flash. -/
def isFlashAddr (p : ℕ) : Bool := p &&& flashAddrMask = flashAddrBase

/-- The byte at an address. -/
def Mach.load (s : Mach) (p : ℕ) : UInt8 :=
  if isFlashAddr p then s.cells (p - flashAddrBase) else s.ram p

/-- The `n` bytes from the pointer `p` on. Pointers have 32 bits. -/
def Mach.loadBytes (s : Mach) (p n : ℕ) : List UInt8 :=
  (List.range n).map fun i => s.load (u32 (p + i))

/-- `flash_send_addr`: three bytes of the address get to the chip. -/
def flashSendAddr (addr : ℕ) : ℕ := addr % 2 ^ 24

/-- `flash_mspi_write_ram` with a page-program command. -/
def flashMspiWriteRam (s : Mach) (cmd : FlashCommand) (addr : ℕ) (data : List UInt8) : Mach :=
  { s with
    cells := program s.cells (flashSendAddr addr) data
    issued := s.issued ++ [⟨cmd, addr, data⟩] }

/-- The loop of `flash_write`, for at most `fuel` turns. Without a result it has not returned. -/
def flashWriteLoop (cmd : FlashCommand) (is_flash_addr : Bool) :
    (fuel : ℕ) → Mach → (addr len buf ns : ℕ) → Option Mach
  | 0, s, _, len, _, _ => if len = 0 then some s else none
  | fuel + 1, s, addr, len, buf, ns =>
    if len = 0 then some s
    else
      let nw := if ns < len then ns else len
      -- `while(1)`: what does not fit the stack is never copied
      if is_flash_addr = true ∧ stackSizeForFlashData < nw then none
      else
        -- `const_buf` has the bytes of `buf`
        flashWriteLoop cmd is_flash_addr fuel
          (flashMspiWriteRam s cmd addr (s.loadBytes buf nw)) (u32 (addr + nw)) (len - nw)
          (u32 (buf + nw)) pageSize

/-- `flash_write`. -/
def flashWrite (fuel : ℕ) (s : Mach) (addr len buf : ℕ) (cmd : FlashCommand) : Option Mach :=
  flashWriteLoop cmd (isFlashAddr buf) fuel s addr len buf
    (pageSize - (addr &&& (pageSize - 1)))

/-- `flash_page_program`. -/
def flashPageProgram (fuel : ℕ) (s : Mach) (addr len buf : ℕ) : Option Mach :=
  flashWrite fuel s addr len buf .flashWriteCmd

/-- `flash_quad_page_program`. -/
def flashQuadPageProgram (fuel : ℕ) (s : Mach) (addr len buf : ℕ) : Option Mach :=
  flashWrite fuel s addr len buf .flashQuadPageProgramCmd

/-! ## The commands of a request -/

/-- The commands follow one another from the address `a` on, each within a page. -/
def Pages (cmd : FlashCommand) : ℕ → List PageProgram → Prop
  | _, [] => True
  | a, w :: ws =>
    w.cmd = cmd ∧ w.addr = u32 a ∧ 1 ≤ w.data.length ∧
      w.addr % pageSize + w.data.length ≤ pageSize ∧ Pages cmd (a + w.data.length) ws

/-- The commands as a chip with `bits` address bits takes them. -/
def chipWrites (bits : ℕ) (ws : List PageProgram) : List Write :=
  ws.map fun w => (w.addr % 2 ^ bits, w.data)

/-- The bytes of the commands, in their order. -/
def programData (ws : List PageProgram) : List UInt8 := (ws.map PageProgram.data).flatten

@[simp] theorem programData_cons (w : PageProgram) (ws : List PageProgram) :
    programData (w :: ws) = w.data ++ programData ws := by
  simp [programData]

theorem writeData_chipWrites (bits : ℕ) (ws : List PageProgram) :
    writeData (chipWrites bits ws) = programData ws := by
  unfold writeData chipWrites programData
  rw [List.map_map]
  rfl

theorem Pages.length_le {cmd : FlashCommand} {a : ℕ} {ws : List PageProgram}
    (h : Pages cmd a ws) : ∀ w ∈ ws, 1 ≤ w.data.length ∧ w.data.length ≤ 256 := by
  induction ws generalizing a with
  | nil => simp
  | cons w ws ih =>
    obtain ⟨-, -, hpos, hpage, hrest⟩ := h
    have hle : w.data.length ≤ 256 := by
      unfold pageSize at hpage
      omega
    exact List.forall_mem_cons.mpr ⟨⟨hpos, hle⟩, ih hrest⟩

/-- A chip with all 32 address bits sees the ranges of the commands themselves. -/
theorem Pages.exists_chipWrites_iff {cmd : FlashCommand} {a b : ℕ} {ws : List PageProgram}
    (h : Pages cmd a ws) :
    (∃ w ∈ chipWrites 32 ws, w.1 ≤ b ∧ b < w.1 + w.2.length) ↔
      ∃ w ∈ ws, w.addr ≤ b ∧ b < w.addr + w.data.length := by
  induction ws generalizing a with
  | nil => simp [chipWrites]
  | cons w ws ih =>
    obtain ⟨-, haddr, -, -, hrest⟩ := h
    have hmod : w.addr % 2 ^ 32 = w.addr := by
      rw [haddr]
      exact Nat.mod_mod _ _
    have hcons : chipWrites 32 (w :: ws) = (w.addr, w.data) :: chipWrites 32 ws := by
      rw [chipWrites, List.map_cons, hmod]
      rfl
    rw [hcons, List.exists_mem_cons_iff, List.exists_mem_cons_iff, ih hrest]

/-- Pages do not go around at any power of two from the page size on. -/
theorem Pages.successive {cmd : FlashCommand} {a bits : ℕ} {ws : List PageProgram}
    (h : Pages cmd a ws) (hlo : 8 ≤ bits) (hhi : bits ≤ 32) :
    Successive (2 ^ bits) a (chipWrites bits ws) := by
  induction ws generalizing a with
  | nil => trivial
  | cons w ws ih =>
    obtain ⟨-, haddr, hpos, hpage, hrest⟩ := h
    have hmod : w.addr % 2 ^ bits = a % 2 ^ bits := by
      rw [haddr]
      exact Nat.mod_mod_of_dvd _ (Nat.pow_dvd_pow 2 hhi)
    refine ⟨hmod, ?_, ih hrest⟩
    show w.addr % 2 ^ bits + w.data.length ≤ 2 ^ bits
    -- the page of the command lies within the chip
    obtain ⟨k, hk⟩ : 256 ∣ 2 ^ bits := Nat.pow_dvd_pow 2 hlo
    have hpage' : w.addr % 2 ^ bits % 256 + w.data.length ≤ 256 := by
      rw [Nat.mod_mod_of_dvd _ ⟨k, hk⟩]
      exact hpage
    have hlt : w.addr % 2 ^ bits < 2 ^ bits := Nat.mod_lt _ (Nat.two_pow_pos bits)
    omega

/-! ## The loop -/

/-- The `n` bytes at `p` are in the RAM. -/
def InRam (p n : ℕ) : Prop := ∀ i < n, isFlashAddr (u32 (p + i)) = false

/-- The bytes of the RAM from `p` on. -/
def ramBytes (ram : ℕ → UInt8) (p n : ℕ) : List UInt8 :=
  (List.range n).map fun i => ram (u32 (p + i))

@[simp] theorem length_ramBytes (ram : ℕ → UInt8) (p n : ℕ) : (ramBytes ram p n).length = n := by
  simp [ramBytes]

theorem ramBytes_add (ram : ℕ → UInt8) (p m n : ℕ) :
    ramBytes ram p (m + n) = ramBytes ram p m ++ ramBytes ram (p + m) n := by
  simp only [ramBytes, List.range_add, List.map_append, List.map_map]
  simp [Function.comp_def, Nat.add_assoc]

theorem getD_ramBytes (ram : ℕ → UInt8) (p : ℕ) {n i : ℕ} (hi : i < n) (d : UInt8) :
    (ramBytes ram p n).getD i d = ram (u32 (p + i)) := by
  simp [ramBytes, List.getD_eq_getElem?_getD, hi]

theorem u32_add_u32 (p i : ℕ) : u32 (u32 p + i) = u32 (p + i) := by
  simp [u32]

theorem loadBytes_of_inRam (s : Mach) {p n : ℕ} (h : InRam p n) :
    s.loadBytes (u32 p) n = ramBytes s.ram p n := by
  apply List.map_congr_left
  intro i hi
  rw [u32_add_u32, Mach.load, h i (List.mem_range.mp hi)]
  rfl

/-- The first `nw` bytes of a request that is in the RAM, and the rest of it. -/
theorem InRam.split {p n nw : ℕ} (h : InRam p n) (hnw : nw ≤ n) :
    InRam p nw ∧ InRam (p + nw) (n - nw) := by
  constructor
  · intro i hi
    exact h i (by omega)
  · intro i hi
    rw [Nat.add_assoc]
    exact h (nw + i) (by omega)

/-- One turn of the loop with bytes left. -/
theorem flashWriteLoop_turn (cmd : FlashCommand) (is_flash_addr : Bool) (fuel : ℕ) (s : Mach)
    {a p len ns : ℕ} (hlen : len ≠ 0) (hns : ns ≤ stackSizeForFlashData) :
    flashWriteLoop cmd is_flash_addr (fuel + 1) s (u32 a) len (u32 p) ns =
      flashWriteLoop cmd is_flash_addr fuel
        (flashMspiWriteRam s cmd (u32 a) (s.loadBytes (u32 p) (min ns len)))
        (u32 (a + min ns len)) (len - min ns len) (u32 (p + min ns len)) pageSize := by
  have hmin : (if ns < len then ns else len) = min ns len := (min_def_lt ns len).symm
  rw [flashWriteLoop, if_neg hlen]
  dsimp only
  rw [hmin, if_neg (by omega), u32_add_u32, u32_add_u32]

/-- From the address `a` on, where `ns` bytes are left of the page, the loop issues the pages of
the request and returns. -/
theorem flashWriteLoop_spec (cmd : FlashCommand) (is_flash_addr : Bool) {len : ℕ} (s : Mach)
    {a p ns : ℕ} (hpage : 0 < len → a % pageSize + ns = pageSize) (hram : InRam p len) :
    ∃ s' ws, (∀ fuel, len ≤ fuel →
        flashWriteLoop cmd is_flash_addr fuel s (u32 a) len (u32 p) ns = some s') ∧
      s'.ram = s.ram ∧ s'.issued = s.issued ++ ws ∧
      s'.cells = programAll s.cells (chipWrites 24 ws) ∧
      Pages cmd a ws ∧ programData ws = ramBytes s.ram p len := by
  induction len using Nat.strong_induction_on generalizing s a p ns with
  | _ len ih =>
    by_cases hlen : len = 0
    · subst hlen
      refine ⟨s, [], fun fuel _ => ?_, rfl, (List.append_nil _).symm, rfl, trivial, rfl⟩
      cases fuel <;> rfl
    · have hpage := hpage (by omega)
      have hmod : a % pageSize < pageSize := Nat.mod_lt _ (by decide)
      set nw := min ns len with hnw
      obtain ⟨hfirst, hlater⟩ := hram.split (Nat.min_le_right ns len)
      -- behind a full part the next page starts; else nothing is left
      have hnext : 0 < len - nw → (a + nw) % pageSize + pageSize = pageSize := by
        intro hleft
        unfold pageSize at hpage ⊢
        omega
      obtain ⟨s', ws, hrun, hram', hissued, hcells, hpages, hdata⟩ :=
        ih (len - nw) (by omega) (flashMspiWriteRam s cmd (u32 a) (s.loadBytes (u32 p) nw))
          hnext hlater
      have hbytes := loadBytes_of_inRam s hfirst
      have hlength : (ramBytes s.ram p nw).length = nw := length_ramBytes _ _ _
      refine ⟨s', ⟨cmd, u32 a, ramBytes s.ram p nw⟩ :: ws, ?_, hram', ?_, ?_, ?_, ?_⟩
      · intro fuel hfuel
        obtain ⟨f, rfl⟩ : ∃ f, fuel = f + 1 := ⟨fuel - 1, by omega⟩
        rw [flashWriteLoop_turn cmd is_flash_addr f s hlen
          (by unfold pageSize at hpage hmod; unfold stackSizeForFlashData; omega)]
        exact hrun f (by omega)
      · rw [hissued, flashMspiWriteRam, hbytes, List.append_assoc, List.singleton_append]
      · rw [hcells, flashMspiWriteRam, hbytes]
        rfl
      · refine ⟨rfl, rfl, by rw [hlength]; omega, ?_, by rw [hlength]; exact hpages⟩
        have hu32 : u32 a % pageSize = a % pageSize := Nat.mod_mod_of_dvd _ (by decide)
        show u32 a % pageSize + (ramBytes s.ram p nw).length ≤ pageSize
        rw [hu32, hlength]
        omega
      · rw [programData_cons, hdata]
        show ramBytes s.ram p nw ++ ramBytes s.ram (p + nw) (len - nw) = ramBytes s.ram p len
        rw [← ramBytes_add, Nat.add_sub_cancel' (Nat.min_le_right ns len)]

/-! ## What a request writes -/

/-- The bytes left of the page that the address is in. -/
theorem pageSize_sub_and (a : ℕ) :
    a % pageSize + (pageSize - (a &&& (pageSize - 1))) = pageSize := by
  have hand : a &&& (pageSize - 1) = a % pageSize := Nat.and_two_pow_sub_one_eq_mod a 8
  have hlt : a % pageSize < pageSize := Nat.mod_lt _ (by decide)
  rw [hand]
  omega

/-- Whatever its alignment, a request becomes page-program commands that follow one another, each
within one page. Their bytes are the buffer and their ranges are the request's. On a chip with any
number of address bits that the request does not go around, each byte is ANDed into its cell and
no other cell changes. -/
theorem flashWrite_covers (s : Mach) (cmd : FlashCommand) {addr len buf : ℕ}
    (haddr : addr < 2 ^ 32) (hbuf : buf < 2 ^ 32) (hram : InRam buf len) :
    ∃ s' ws, (∀ fuel, len ≤ fuel → flashWrite fuel s addr len buf cmd = some s') ∧
      s'.ram = s.ram ∧ s'.issued = s.issued ++ ws ∧
      s'.cells = programAll s.cells (chipWrites 24 ws) ∧
      Pages cmd addr ws ∧ (∀ w ∈ ws, 1 ≤ w.data.length ∧ w.data.length ≤ 256) ∧
      programData ws = ramBytes s.ram buf len ∧
      (∀ b, (∃ w ∈ ws, w.addr ≤ b ∧ b < w.addr + w.data.length) ↔
        ∃ i < len, b = u32 (addr + i)) ∧
      ∀ bits, 8 ≤ bits → bits ≤ 32 → len ≤ 2 ^ bits → ∀ c : Cells,
        (∀ i < len, programAll c (chipWrites bits ws) ((addr + i) % 2 ^ bits) =
          c ((addr + i) % 2 ^ bits) &&& s.ram (u32 (buf + i))) ∧
        ((∀ i < len, c ((addr + i) % 2 ^ bits) = 0xFF) → ∀ i < len,
          programAll c (chipWrites bits ws) ((addr + i) % 2 ^ bits) = s.ram (u32 (buf + i))) ∧
        ∀ b, (∀ i < len, b ≠ (addr + i) % 2 ^ bits) →
          programAll c (chipWrites bits ws) b = c b := by
  obtain ⟨s', ws, hrun, hram', hissued, hcells, hpages, hdata⟩ :=
    flashWriteLoop_spec cmd (isFlashAddr buf) s (fun _ => pageSize_sub_and addr) hram
  have hlength : (programData ws).length = len := by rw [hdata, length_ramBytes]
  refine ⟨s', ws, fun fuel hfuel => ?_, hram', hissued, hcells, hpages, hpages.length_le, hdata,
    fun b => ?_, fun bits hlo hhi hfits c => ?_⟩
  · have h := hrun fuel hfuel
    rwa [u32_of_lt haddr, u32_of_lt hbuf] at h
  · rw [← hpages.exists_chipWrites_iff, (hpages.successive (by omega) le_rfl).mem_range_iff,
      writeData_chipWrites, hlength]
    rfl
  · have hsucc := hpages.successive hlo hhi
    have hand : ∀ i < len, programAll c (chipWrites bits ws) ((addr + i) % 2 ^ bits) =
        c ((addr + i) % 2 ^ bits) &&& s.ram (u32 (buf + i)) := by
      intro i hi
      have hcell := hsucc.programAll_apply (by rwa [writeData_chipWrites, hlength])
        (by rwa [writeData_chipWrites, hlength]) c
      rwa [writeData_chipWrites, hdata, getD_ramBytes _ _ hi] at hcell
    refine ⟨hand, fun herased i hi => ?_, fun b hb => hsucc.kept ?_ c⟩
    · rw [hand i hi, herased i hi, ones_and]
    · rwa [writeData_chipWrites, hlength]

/-- Ten bytes from six before the end of a page on: the fifth and the seventh of them. -/
theorem flashWrite_covers_page_end :
    ∃ s', flashWrite 10 ⟨UInt8.ofNat, fun _ => 0xFF, []⟩ 250 10 0x1000 .flashWriteCmd = some s' ∧
      s'.issued.length = 2 ∧ s'.cells 254 = 4 ∧ s'.cells 256 = 6 := by
  obtain ⟨s', ws, hrun, -, -, hcells, -, -, -, -, hchip⟩ :=
    flashWrite_covers ⟨UInt8.ofNat, fun _ => 0xFF, []⟩ .flashWriteCmd (by decide : 250 < 2 ^ 32)
      (by decide : 0x1000 < 2 ^ 32) (by unfold InRam; decide : InRam 0x1000 10)
  have hread := (hchip 24 (by decide) (by decide) (by decide) fun _ => 0xFF).2.1 fun _ _ => rfl
  have hrun := hrun 10 le_rfl
  refine ⟨s', hrun, ?_, ?_, ?_⟩
  · cases hrun
    rfl
  · rw [hcells]
    exact hread 4 (by decide)
  · rw [hcells]
    exact hread 6 (by decide)

end TlBleSdk.Drivers
