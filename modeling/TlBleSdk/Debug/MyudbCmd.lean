import TlBleSdk.Debug.MyudbUsb

/-!
# Commands over USB

The other direction of `myudb_usb.c`: `myudb_usb_get_packet` puts the packets of the host one
behind the other until one is shorter than 64 bytes, and `myudb_mem_cmd` executes what came
together. Every byte of the buffers that they read or write is recorded.

`buff_usb_cmd` is modelled as the memory from its start on. The loop of `myudb_hci_cmd_from_usb`
does not end once `fw_download` is set, so its turns and the calls are not told apart.
-/

namespace TlBleSdk.Debug

open Hci

/-! ## Memory commands -/

/-- The memories of the device, and the content of the stack under `rsp`. -/
structure MyudbDevice where
  fifoSize : ℕ
  ram : ℕ → UInt8
  analog : ℕ → UInt8
  flash : ℕ → UInt8
  flashMid : ℕ
  stack : ℕ → UInt8
  hciDebugCb : Bool
  hciCmdCb : Bool

inductive MemAction
  | ramWrite (adr : ℕ) (data : List UInt8)
  | analogWrite (adr : ℕ) (data : List UInt8)
  | flashWrite (adr : ℕ) (data : List UInt8)
  | eraseSector (adr : ℕ)
  | interruptDisable
  | dropLog

/-- What a command returns, the offsets of `p` and of `rsp` that it reads and writes, and what it
does. -/
structure MemCmd where
  ret : ℕ
  reads : List ℕ
  rspWrites : List ℕ
  records : List LogRecord
  actions : List MemAction

/-- `MYHCI_FW_DOWNLOAD`. -/
def myhciFwDownload : ℕ := 0xFE

/-- The number of bytes that `usb_send_status_pkt` copies. -/
def statusPktLen (size len : ℕ) : ℕ := if sub32 size 8 < len then sub32 size 8 else len

/-- The number of bytes of a memory read. -/
def readLen (p : ℕ → UInt8) : ℕ := if 256 < bytesToUint16 p 6 then 256 else bytesToUint16 p 6

/-- The bytes of a memory read. Another type reads none. -/
def readData (dev : MyudbDevice) (p : ℕ → UInt8) : List UInt8 :=
  if p 1 = 0 then bytesAt dev.ram (bytesToUint32 p 2) (readLen p)
  else if p 1 = 1 then bytesAt dev.analog (bytesToUint32 p 2) (readLen p)
  else if p 1 = 2 ∨ p 1 = 3 then bytesAt dev.flash (bytesToUint32 p 2) (readLen p)
  else []

/-- A memory read. Behind what is written, `rsp` has what was on the stack. -/
def memRead (dev : MyudbDevice) (p : ℕ → UInt8) : MemCmd :=
  let rsp := memcpy dev.stack 0 (0x29 :: bytesAt p 1 5 ++ readData dev p)
  { ret := 0
    reads := List.range' 0 (statusPktLen dev.fifoSize 12) ++ List.range' 1 5 ++ List.range' 1 7
    rspWrites := List.range' 0 (6 + (readData dev p).length)
    records := [usbSendStatusPktRecord dev.fifoSize 0x81 8 (bytes p 12),
      usbSendStatusPktRecord dev.fifoSize 0x82 8 (bytes rsp (readLen p + 6))]
    actions := [] }

/-- The sectors of `nb` bytes are erased. -/
def eraseSectors (adr nb : ℕ) : List MemAction :=
  (List.range ((nb + 4095) / 4096)).map fun k => .eraseSector (u32 (adr + k * 4096))

/-- `nb`, from those of its four bytes that the command has. -/
def eraseLen (p : ℕ → UInt8) (n : ℕ) : BitVec 32 :=
  BitVec.ofNat 32 ((p 6).toNat + (if 1 < n then (p 7).toNat * 256 else 0) +
    (if 2 < n then (p 8).toNat * 65536 else 0) + (if 3 < n then (p 9).toNat * 16777216 else 0))

/-- A memory write with `n` bytes of data. -/
def memWrite (dev : MyudbDevice) (fwDownload : Bool) (p : ℕ → UInt8) (n : ℕ) : MemCmd :=
  let adr := bytesToUint32 p 2
  let data := bytesAt p 6 n
  let rsp := memcpy dev.stack 0 (0x2B :: bytesAt p 1 16)
  { ret := if p 1 = 0xFE then myhciFwDownload else 0
    reads := List.range' 0 (statusPktLen dev.fifoSize 12) ++ List.range' 1 16 ++ List.range' 1 5 ++
      if p 1 = 0 ∨ p 1 = 1 ∨ p 1 = 2 then List.range' 6 n
      else if p 1 = 3 then List.range' 6 (min n 4)
      else []
    rspWrites := List.range' 0 17
    records := [usbSendStatusPktRecord dev.fifoSize 0x81 8 (bytes p 12),
      usbSendStatusPktRecord dev.fifoSize 0x82 8 (bytes rsp 14)]
    actions :=
      if p 1 = 0 then [.ramWrite adr data]
      else if p 1 = 1 then [.analogWrite adr data]
      else if p 1 = 2 then
        (if fwDownload ∧ adr % 4096 = 0 then [.eraseSector adr] else []) ++ [.flashWrite adr data]
      else if p 1 = 3 then
        if eraseLen p n ≠ 0 then eraseSectors adr (eraseLen p n).toInt.toNat
        else eraseSectors adr (2 ^ (dev.flashMid / 65536 % 256 + 6))
      else if p 1 = 0xFE then [.interruptDisable, .dropLog]
      else [] }

/-- `myudb_mem_cmd`. -/
def myudbMemCmd (dev : MyudbDevice) (fwDownload : Bool) (p : ℕ → UInt8) (nbyte : ℕ) : MemCmd :=
  let m :=
    if p 0 = 0x28 ∧ 8 ≤ nbyte then memRead dev p
    else if p 0 = 0x2A ∧ 6 < nbyte then memWrite dev fwDownload p (nbyte - 6)
    else { ret := 1, reads := [], rspWrites := [], records := [], actions := [] }
  { m with reads := 0 :: m.reads }

/-! ## Packets -/

/-- The maximum length of a packet. -/
def packetMax : ℕ := 64

/-- A packet of the host. -/
abbrev Packet := { data : List UInt8 // data.length ≤ packetMax }

/-- The sizes of `buff_usb_cmd` and of `rsp`. -/
def buffUsbCmdSize : ℕ := 320
def rspSize : ℕ := 280

/-- `myudb.cmd_len`, `buff_usb_cmd` and `fw_download`; and what came since the last return. -/
structure MyudbRx where
  cmdLen : ℕ
  buf : ℕ → UInt8
  fwDownload : Bool
  received : List UInt8

/-- The loop of `myudb_usb_get_packet`, with the offsets that it writes. -/
def putBytes (s : MyudbRx × List ℕ) (data : List UInt8) : MyudbRx × List ℕ :=
  data.foldl (fun s b =>
    ({ s.1 with buf := Function.update s.1.buf s.1.cmdLen b, cmdLen := u16 (s.1.cmdLen + 1) },
      s.2 ++ [s.1.cmdLen])) s

/-- `myudb_usb_get_packet`: the length of a command that is complete, and the offsets written. -/
def myudbUsbGetPacket (s : MyudbRx) (pkt : Packet) : MyudbRx × ℕ × List ℕ :=
  let (s, writes) := putBytes (s, []) pkt.1
  if pkt.1.length < packetMax then ({ s with cmdLen := 0, received := [] }, s.cmdLen, writes)
  else ({ s with received := s.received ++ pkt.1 }, 0, writes)

/-- A callback of the application, with the command. -/
inductive MyudbCall
  | hciDebugCb (cmd : List UInt8)
  | hciCmdCb (cmd : List UInt8)

/-- A turn of `myudb_hci_cmd_from_usb`. -/
structure CmdTurn where
  rx : MyudbRx
  n : ℕ
  writes : List ℕ
  memCmd : Option MemCmd
  calls : List MyudbCall

/-- `myudb_hci_cmd_from_usb` with a packet. -/
def myudbHciCmdFromUsb (dev : MyudbDevice) (s : MyudbRx) (pkt : Packet) : CmdTurn :=
  let (s, n, writes) := myudbUsbGetPacket s pkt
  if n = 0 then { rx := s, n, writes, memCmd := none, calls := [] }
  else
    let m := myudbMemCmd dev s.fwDownload s.buf n
    if m.ret = myhciFwDownload then
      { rx := { s with fwDownload := true }, n, writes, memCmd := some m, calls := [] }
    else if s.buf 0 = 0x11 ∧ dev.hciDebugCb ∧ !s.fwDownload then
      { rx := s, n, writes, memCmd := some m, calls := [.hciDebugCb (bytes s.buf n)] }
    else if m.ret ≠ 0 ∧ dev.hciCmdCb ∧ !s.fwDownload then
      { rx := s, n, writes, memCmd := some m, calls := [.hciCmdCb (bytes s.buf n)] }
    else { rx := s, n, writes, memCmd := some m, calls := [] }

/-- The state behind it. -/
def cmdStep (dev : MyudbDevice) (s : MyudbRx) (pkt : Packet) : MyudbRx :=
  (myudbHciCmdFromUsb dev s pkt).rx

/-- Power-on, with any content of the buffer. -/
def MyudbRx.init (buf : ℕ → UInt8) : MyudbRx := ⟨0, buf, false, []⟩

/-! ## Correctness -/

/-- A packet is written inside the buffer; a short one completes what came since the last return,
and the command is executed inside its buffers. -/
structure CmdStepOk (dev : MyudbDevice) (s : MyudbRx) (pkt : Packet) : Prop where
  writes : ∀ a ∈ (myudbHciCmdFromUsb dev s pkt).writes, a < buffUsbCmdSize
  complete : pkt.1.length < packetMax →
    bytes (myudbHciCmdFromUsb dev s pkt).rx.buf (myudbHciCmdFromUsb dev s pkt).n =
      s.received ++ pkt.1
  more : packetMax ≤ pkt.1.length → (myudbHciCmdFromUsb dev s pkt).n = 0
  memCmd : ∀ m, (myudbHciCmdFromUsb dev s pkt).memCmd = some m →
    (∀ a ∈ m.reads, a < (myudbHciCmdFromUsb dev s pkt).n) ∧ ∀ a ∈ m.rspWrites, a < rspSize

/-- A memory command has as many bytes as are copied from it. -/
def CmdFits (dev : MyudbDevice) (cmd : List UInt8) : Prop :=
  (cmd[0]? = some 0x28 → 8 ≤ cmd.length → statusPktLen dev.fifoSize 12 ≤ cmd.length) ∧
    (cmd[0]? = some 0x2A → 6 < cmd.length → 17 ≤ cmd.length)

/-- What came since the last return fits the buffer with the packet, and as a command. -/
def CmdStepFits (dev : MyudbDevice) (s : MyudbRx) (pkt : Packet) : Prop :=
  s.received.length + pkt.1.length ≤ buffUsbCmdSize ∧
    (pkt.1.length < packetMax → CmdFits dev (s.received ++ pkt.1))

/-- The state of a run: the start of the buffer has what came since the last return. -/
structure MyudbRx.Inv (s : MyudbRx) : Prop where
  cmdLen_eq : s.cmdLen = s.received.length
  buf_eq : bytes s.buf s.cmdLen = s.received
  le : s.received.length ≤ buffUsbCmdSize

theorem putBytes_eq (data : List UInt8) {s : MyudbRx} {writes : List ℕ}
    (hlen : s.cmdLen + data.length < 65536) :
    ∃ buf, bytes buf (s.cmdLen + data.length) = bytes s.buf s.cmdLen ++ data ∧
      putBytes (s, writes) data = ({ s with buf := buf, cmdLen := s.cmdLen + data.length },
        writes ++ List.range' s.cmdLen data.length) := by
  induction data generalizing s writes with
  | nil => exact ⟨s.buf, (List.append_nil _).symm, by simp [putBytes]⟩
  | cons b data ih =>
    rw [List.length_cons] at hlen ⊢
    let s' : MyudbRx :=
      { s with buf := Function.update s.buf s.cmdLen b, cmdLen := u16 (s.cmdLen + 1) }
    have hnext : s'.cmdLen = s.cmdLen + 1 := u16_of_lt (by omega)
    have hsum : s.cmdLen + 1 + data.length = s.cmdLen + (data.length + 1) := by omega
    obtain ⟨buf, hbuf, hput⟩ := @ih s' (writes ++ [s.cmdLen]) (by omega)
    rw [hnext, hsum] at hbuf hput
    refine ⟨buf, ?_, ?_⟩
    · rw [hbuf]
      show bytes (Function.update s.buf s.cmdLen b) (s.cmdLen + 1) ++ data = _
      rw [bytes_update_succ, List.append_assoc, List.singleton_append]
    · show putBytes (s', writes ++ [s.cmdLen]) data = _
      rw [hput, List.range'_succ, List.append_assoc, List.singleton_append]

/-- A packet is put behind what came before it. -/
theorem myudbUsbGetPacket_eq {s : MyudbRx} (h : s.Inv) (pkt : Packet) :
    ∃ buf, bytes buf (s.received ++ pkt.1).length = s.received ++ pkt.1 ∧
      myudbUsbGetPacket s pkt =
        if pkt.1.length < packetMax then
          ({ s with buf := buf, cmdLen := 0, received := [] }, (s.received ++ pkt.1).length,
            List.range' s.received.length pkt.1.length)
        else
          ({ s with buf := buf, cmdLen := (s.received ++ pkt.1).length,
                    received := s.received ++ pkt.1 }, 0,
            List.range' s.received.length pkt.1.length) := by
  have hpkt := pkt.2
  have hle := h.le
  have hcmd := h.cmdLen_eq
  obtain ⟨buf, hbuf, hput⟩ := @putBytes_eq pkt.1 s [] (by
    unfold packetMax at hpkt
    unfold buffUsbCmdSize at hle
    omega)
  rw [h.buf_eq, h.cmdLen_eq, ← List.length_append] at hbuf
  refine ⟨buf, hbuf, ?_⟩
  rw [myudbUsbGetPacket, hput, List.nil_append, hcmd, ← List.length_append]

/-! ## The accesses of a command -/

theorem forall_mem_range' {a n k : ℕ} (hn : n ≠ 0) :
    (∀ i ∈ List.range' a n, i < k) ↔ a + n ≤ k := by
  constructor
  · intro h
    have hlast := h (a + n - 1) (List.mem_range'_1.mpr (by omega))
    omega
  · intro h i hi
    have hbounds := List.mem_range'_1.mp hi
    omega

theorem statusPktLen_le (size len : ℕ) : statusPktLen size len ≤ len := by
  unfold statusPktLen
  split_ifs <;> omega

/-- The status packet reads below the length exactly if it is as long. -/
theorem forall_mem_status {size n : ℕ} :
    (∀ a ∈ List.range' 0 (statusPktLen size 12), a < n) ↔ statusPktLen size 12 ≤ n := by
  by_cases hzero : statusPktLen size 12 = 0
  · simp [hzero]
  · rw [forall_mem_range' hzero, Nat.zero_add]

theorem reads_memRead {dev : MyudbDevice} {p : ℕ → UInt8} {n : ℕ} (hn : 8 ≤ n) :
    (∀ a ∈ (memRead dev p).reads, a < n) ↔ statusPktLen dev.fifoSize 12 ≤ n := by
  show (∀ a ∈ List.range' 0 (statusPktLen dev.fifoSize 12) ++ List.range' 1 5 ++ List.range' 1 7,
    a < n) ↔ _
  rw [List.forall_mem_append, List.forall_mem_append, forall_mem_status,
    forall_mem_range' (by decide), forall_mem_range' (by decide)]
  omega

theorem reads_memWrite {dev : MyudbDevice} {fwDownload : Bool} {p : ℕ → UInt8} {n : ℕ}
    (hn : 6 < n) :
    (∀ a ∈ (memWrite dev fwDownload p (n - 6)).reads, a < n) ↔ 17 ≤ n := by
  have hstatus := statusPktLen_le dev.fifoSize 12
  have hdata : ∀ k, k ≤ n - 6 → ∀ a ∈ List.range' 6 k, a < n := by
    intro k hk a ha
    have hbounds := List.mem_range'_1.mp ha
    omega
  -- what depends on the type ends with the data
  have htype : ∀ a ∈ (if p 1 = 0 ∨ p 1 = 1 ∨ p 1 = 2 then List.range' 6 (n - 6)
      else if p 1 = 3 then List.range' 6 (min (n - 6) 4) else []), a < n := by
    split_ifs
    · exact hdata _ le_rfl
    · exact hdata _ (min_le_left _ _)
    · intro a ha
      cases ha
  show (∀ a ∈ List.range' 0 (statusPktLen dev.fifoSize 12) ++ List.range' 1 16 ++
    List.range' 1 5 ++ (if p 1 = 0 ∨ p 1 = 1 ∨ p 1 = 2 then List.range' 6 (n - 6)
      else if p 1 = 3 then List.range' 6 (min (n - 6) 4) else []), a < n) ↔ _
  rw [List.forall_mem_append, List.forall_mem_append, List.forall_mem_append, forall_mem_status,
    forall_mem_range' (by decide), forall_mem_range' (by decide), and_iff_left htype]
  omega

/-- `rsp` is always large enough. -/
theorem rspWrites_lt (dev : MyudbDevice) (fwDownload : Bool) (p : ℕ → UInt8) (nbyte : ℕ) :
    ∀ a ∈ (myudbMemCmd dev fwDownload p nbyte).rspWrites, a < rspSize := by
  have hdata : (readData dev p).length ≤ 256 := by
    unfold readData readLen
    split_ifs <;> simp only [length_bytesAt, List.length_nil] <;> omega
  intro a ha
  unfold rspSize
  unfold myudbMemCmd at ha
  dsimp only at ha
  split_ifs at ha
  · have hbounds := List.mem_range'_1.mp ha
    omega
  · have hbounds := List.mem_range'_1.mp ha
    omega
  · cases ha

/-- A command is executed inside its buffers exactly if it has as many bytes as are copied. -/
theorem reads_myudbMemCmd {dev : MyudbDevice} {fwDownload : Bool} {p : ℕ → UInt8} {nbyte : ℕ}
    (hn : nbyte ≠ 0) : (∀ a ∈ (myudbMemCmd dev fwDownload p nbyte).reads, a < nbyte) ↔
      CmdFits dev (bytes p nbyte) := by
  have hpos : 0 < nbyte := Nat.pos_of_ne_zero hn
  have hfirst : (bytes p nbyte)[0]? = some (p 0) := by
    rw [List.getElem?_eq_getElem (by rwa [length_bytes]), getElem_bytes]
  unfold CmdFits myudbMemCmd
  dsimp only
  rw [hfirst, length_bytes, List.forall_mem_cons, and_iff_right hpos, Option.some_inj,
    Option.some_inj]
  split_ifs with hread hwrite
  · rw [reads_memRead hread.2, hread.1]
    simp [hread.2]
  · rw [reads_memWrite hwrite.2, hwrite.1]
    simp [hwrite.2]
  · refine iff_of_true (fun a ha => by cases ha) ⟨fun h0 h8 => ?_, fun h0 h6 => ?_⟩
    · exact absurd ⟨h0, h8⟩ hread
    · exact absurd ⟨h0, h6⟩ hwrite

/-! ## Runs -/

theorem myudbHciCmdFromUsb_eq (dev : MyudbDevice) (s : MyudbRx) (pkt : Packet) :
    let (s', n, writes) := myudbUsbGetPacket s pkt
    let turn := myudbHciCmdFromUsb dev s pkt
    turn.n = n ∧ turn.writes = writes ∧
      turn.memCmd = (if n = 0 then none else some (myudbMemCmd dev s'.fwDownload s'.buf n)) ∧
      turn.rx.cmdLen = s'.cmdLen ∧ turn.rx.buf = s'.buf ∧ turn.rx.received = s'.received := by
  unfold myudbHciCmdFromUsb
  dsimp only
  split_ifs <;> exact ⟨rfl, rfl, rfl, rfl, rfl, rfl⟩

namespace MyudbRx.Inv

variable {dev : MyudbDevice} {s : MyudbRx} {pkt : Packet}

theorem step (h : s.Inv) (hfits : CmdStepFits dev s pkt) : (cmdStep dev s pkt).Inv := by
  obtain ⟨buf, hbuf, hget⟩ := myudbUsbGetPacket_eq h pkt
  have hturn := myudbHciCmdFromUsb_eq dev s pkt
  rw [hget] at hturn
  by_cases hshort : pkt.1.length < packetMax
  · -- the next packet begins a command
    rw [if_pos hshort] at hturn
    obtain ⟨-, -, -, hcmd, -, hrec⟩ := hturn
    have hnil : (cmdStep dev s pkt).received = [] := hrec
    have hzero : (cmdStep dev s pkt).cmdLen = 0 := hcmd
    refine ⟨?_, ?_, ?_⟩ <;> rw [hnil]
    · exact hzero
    · rw [hzero]
      rfl
    · exact Nat.zero_le _
  · rw [if_neg hshort] at hturn
    obtain ⟨-, -, -, hcmd, hmem, hrec⟩ := hturn
    have hlen : (cmdStep dev s pkt).cmdLen = (s.received ++ pkt.1).length := hcmd
    have hrec' : (cmdStep dev s pkt).received = s.received ++ pkt.1 := hrec
    have hmem' : (cmdStep dev s pkt).buf = buf := hmem
    refine ⟨?_, ?_, ?_⟩ <;> rw [hrec']
    · exact hlen
    · rw [hlen, hmem', hbuf]
    · rw [List.length_append]
      exact hfits.1

/-- A packet is written inside the buffer exactly if it fits behind what came before it. -/
theorem writes_iff (h : s.Inv) :
    (∀ a ∈ (myudbHciCmdFromUsb dev s pkt).writes, a < buffUsbCmdSize) ↔
      s.received.length + pkt.1.length ≤ buffUsbCmdSize := by
  obtain ⟨buf, -, hget⟩ := myudbUsbGetPacket_eq h pkt
  have hwrites : (myudbHciCmdFromUsb dev s pkt).writes = (myudbUsbGetPacket s pkt).2.2 :=
    (myudbHciCmdFromUsb_eq dev s pkt).2.1
  have hle := h.le
  have hoffsets : (myudbUsbGetPacket s pkt).2.2 = List.range' s.received.length pkt.1.length := by
    rw [hget]
    split <;> rfl
  rw [hwrites, hoffsets]
  by_cases hzero : pkt.1.length = 0
  · simp [hzero, hle]
  · exact forall_mem_range' hzero

/-- A short packet completes a command, which is executed inside its buffers exactly if it fits. -/
theorem command (h : s.Inv) (hshort : pkt.1.length < packetMax) :
    bytes (myudbHciCmdFromUsb dev s pkt).rx.buf (myudbHciCmdFromUsb dev s pkt).n =
        s.received ++ pkt.1 ∧
      ((∀ m, (myudbHciCmdFromUsb dev s pkt).memCmd = some m →
        (∀ a ∈ m.reads, a < (myudbHciCmdFromUsb dev s pkt).n) ∧ ∀ a ∈ m.rspWrites, a < rspSize) ↔
          CmdFits dev (s.received ++ pkt.1)) := by
  obtain ⟨buf, hbuf, hget⟩ := myudbUsbGetPacket_eq h pkt
  have hturn := myudbHciCmdFromUsb_eq dev s pkt
  rw [hget, if_pos hshort] at hturn
  obtain ⟨hn, -, hmem, -, hmembuf, -⟩ := hturn
  rw [hmem, hn, hmembuf]
  refine ⟨hbuf, ?_⟩
  dsimp only
  by_cases hzero : (s.received ++ pkt.1).length = 0
  · -- an empty command is not executed
    rw [if_pos hzero, List.length_eq_zero_iff.mp hzero]
    exact iff_of_true (fun m hm => nomatch hm) ⟨(fun h0 => nomatch h0), (fun h0 => nomatch h0)⟩
  · have hreads := @reads_myudbMemCmd dev s.fwDownload buf _ hzero
    rw [hbuf] at hreads
    rw [if_neg hzero, ← hreads]
    constructor
    · intro hall
      exact (hall _ rfl).1
    · rintro hall m hm
      cases hm
      exact ⟨hall, rspWrites_lt dev _ _ _⟩

/-- A full packet completes no command. -/
theorem no_command (h : s.Inv) (hfull : ¬ pkt.1.length < packetMax) :
    (myudbHciCmdFromUsb dev s pkt).n = 0 ∧ (myudbHciCmdFromUsb dev s pkt).memCmd = none := by
  obtain ⟨buf, -, hget⟩ := myudbUsbGetPacket_eq h pkt
  have hturn := myudbHciCmdFromUsb_eq dev s pkt
  rw [hget, if_neg hfull] at hturn
  obtain ⟨hn, -, hmem, -⟩ := hturn
  exact ⟨hn, hmem⟩

theorem ok_iff (h : s.Inv) : CmdStepOk dev s pkt ↔ CmdStepFits dev s pkt := by
  by_cases hshort : pkt.1.length < packetMax
  · obtain ⟨hcomplete, hcmd⟩ := @command dev s pkt h hshort
    constructor
    · intro hok
      exact ⟨h.writes_iff.mp hok.writes, fun _ => hcmd.mp hok.memCmd⟩
    · intro hfits
      exact ⟨h.writes_iff.mpr hfits.1, fun _ => hcomplete,
        fun hmore => absurd hshort (Nat.not_lt_of_le hmore), hcmd.mpr (hfits.2 hshort)⟩
  · obtain ⟨hn, hnone⟩ := @no_command dev s pkt h hshort
    constructor
    · intro hok
      exact ⟨h.writes_iff.mp hok.writes, fun hless => absurd hless hshort⟩
    · intro hfits
      refine ⟨h.writes_iff.mpr hfits.1, fun hless => absurd hless hshort, fun _ => hn,
        fun m hm => ?_⟩
      rw [hnone] at hm
      exact nomatch hm

theorem along_iff (h : s.Inv) (pkts : List Packet) :
    Machine.Along (cmdStep dev) (CmdStepOk dev) s pkts ↔
      Machine.Along (cmdStep dev) (CmdStepFits dev) s pkts :=
  Machine.along_congr_of_invariant (fun _ _ h hfits => h.step hfits) (fun _ _ h => h.ok_iff) h

theorem init (buf : ℕ → UInt8) : (MyudbRx.init buf).Inv := ⟨rfl, rfl, Nat.zero_le _⟩

end MyudbRx.Inv

/-- In every run the packets and the commands stay in their buffers, and every command is what came
since the last one, exactly if what comes together fits the buffer and each memory command has as
many bytes as are copied from it. -/
theorem usb_commands (dev : MyudbDevice) (buf : ℕ → UInt8) (pkts : List Packet) :
    Machine.Along (cmdStep dev) (CmdStepOk dev) (MyudbRx.init buf) pkts ↔
      Machine.Along (cmdStep dev) (CmdStepFits dev) (MyudbRx.init buf) pkts :=
  (MyudbRx.Inv.init buf).along_iff pkts

/-- A device with an empty memory. -/
def exampleDevice : MyudbDevice where
  fifoSize := 288
  ram := fun _ => 0
  analog := fun _ => 0
  flash := fun _ => 0
  flashMid := 0
  stack := fun _ => 0
  hciDebugCb := false
  hciCmdCb := false

/-- A full packet. -/
def fullPacket : Packet := ⟨List.replicate 64 0, by decide⟩

/-- Five full packets and a byte do not fit, and a memory read of eight bytes is copied with four
more. -/
theorem not_usb_commands :
    (¬ Machine.Along (cmdStep exampleDevice) (CmdStepOk exampleDevice) (MyudbRx.init fun _ => 0)
      (List.replicate 5 fullPacket ++ [⟨[0], by decide⟩])) ∧
      ¬ Machine.Along (cmdStep exampleDevice) (CmdStepOk exampleDevice) (MyudbRx.init fun _ => 0)
        [⟨[0x28, 0, 0, 0, 0, 0, 1, 0], by decide⟩] := by
  constructor
  · intro h
    have hfits := ((MyudbRx.Inv.init fun _ => 0).along_iff _).mp h
    have hlen := hfits.2.2.2.2.2.1.1
    revert hlen
    decide +kernel
  · intro h
    have hread := (h.1.memCmd _ rfl).1 11 (by decide)
    exact absurd hread (by decide)

end TlBleSdk.Debug
