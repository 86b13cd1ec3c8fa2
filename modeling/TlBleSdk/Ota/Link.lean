import TlBleSdk.Ota.SlaveAccepts
import TlBleSdk.Ota.Turns

/-!
# A master and a slave of the 2.4G OTA over the air

The radio of both parties is half duplex: it sends a frame and then listens, and a frame that is
received stays in the message queue until the next call. `OtaLink` has at most one frame on its
way. It may be lost or held back as long as it takes; what is sent meanwhile replaces it or is
lost. `OtaLink.Inv` is what holds between master, slave and the frame, whatever the order of
their calls.
-/

namespace TlBleSdk.Ota

open Hci NorFlash

/-- The keys of the master. -/
inductive OtaKey
  | key1
  | key2
deriving DecidableEq

/-- The image that a key sends. -/
def OtaKey.binAddr : OtaKey → ℕ
  | .key1 => otaMasterBinAddr1
  | .key2 => otaMasterBinAddr2

/-- The frame on its way. -/
inductive OtaFlight
  | toSlave (f : List UInt8)
  | toMaster (f : List UInt8)
deriving DecidableEq

namespace OtaFlight

/-- What the slave can receive. -/
def forSlave : Option OtaFlight → Option (List UInt8)
  | some (.toSlave f) => some f
  | _ => none

/-- What the master can receive. -/
def forMaster : Option OtaFlight → Option (List UInt8)
  | some (.toMaster f) => some f
  | _ => none

end OtaFlight

/-- What a call of a state machine finds in the message queue. -/
inductive OtaHeard
  | nothing
  | frame
  | invalidData
  | timeout
  | txDone
deriving DecidableEq

/-- The message of a call, where `arrived` is the frame for this party. -/
def OtaHeard.msg (arrived : Option (List UInt8)) : OtaHeard → Option OtaMsg
  | .nothing => none
  | .frame => arrived.map fun f => otaRxIrq (some (packet f))
  | .invalidData => some (otaRxIrq none)
  | .timeout => some .timeout
  | .txDone => some .txDone

/-- A frame that is heard is not on its way any more. -/
def OtaHeard.left (arrived : Option (List UInt8)) (flight : Option OtaFlight) :
    OtaHeard → Option OtaFlight
  | .frame => if arrived = none then flight else none
  | _ => flight

/-- The frame on its way behind a call: of one that is there and one that is sent, `keep` tells
which is lost. -/
def transmit (keep : Bool) (flight sent : Option OtaFlight) : Option OtaFlight :=
  if sent = none ∨ (keep = true ∧ flight ≠ none) then flight else sent

/-- The frame that a call puts on the air. -/
def sentFrame (before after : List (List UInt8)) : Option (List UInt8) :=
  (after.drop before.length).head?

/-- A master, a slave and the frame on its way. -/
structure OtaLink where
  master : OtaMaster
  slave : OtaSlave
  flight : Option OtaFlight

/-- What happens on a link. -/
inductive OtaLinkEvent
  /-- A key of the master is pressed. -/
  | key (key : OtaKey)
  /-- The update of the slave is triggered. -/
  | trigger
  /-- The frame on its way is lost. -/
  | lose
  | master (now : ℕ) (heard : OtaHeard) (keep : Bool)
  | slave (now : ℕ) (heard : OtaHeard) (keep : Bool)

namespace OtaLink

/-- `OTA_MasterStart` is called. -/
def masterCall (link : OtaLink) (now : ℕ) (heard : OtaHeard) (keep : Bool) : OtaLink :=
  let arrived := OtaFlight.forMaster link.flight
  let master := otaMasterStep otaMasterStart link.master (.start now (heard.msg arrived))
  let sent := (sentFrame link.master.air master.air).map OtaFlight.toSlave
  { link with master := master, flight := transmit keep (heard.left arrived link.flight) sent }

/-- `main_idle_loop` of the slave goes on. -/
def slaveCall (link : OtaLink) (now : ℕ) (heard : OtaHeard) (keep : Bool) : OtaLink :=
  let arrived := OtaFlight.forSlave link.flight
  let slave := otaSlaveStep otaSlaveStart link.slave (.start now (heard.msg arrived))
  let sent := (sentFrame link.slave.air slave.air).map OtaFlight.toMaster
  { link with slave := slave, flight := transmit keep (heard.left arrived link.flight) sent }

/-- The steps of a link. The loop of the master takes a key between two transfers only, which is
a case of this. -/
def step (link : OtaLink) : OtaLinkEvent → OtaLink
  | .key key => { link with master := otaMasterInit link.master key.binAddr }
  | .trigger => { link with slave := otaSlaveStep otaSlaveStart link.slave .trigger }
  | .lose => { link with flight := none }
  | .master now heard keep => link.masterCall now heard keep
  | .slave now heard keep => link.slaveCall now heard keep

/-- Master and slave are powered on, and a key of the master is pressed. -/
def start (masterFlash slaveFlash : Cells) (key : OtaKey) : OtaLink where
  master := otaMasterInit (.powerOn masterFlash) key.binAddr
  slave := .powerOn slaveFlash
  flight := none

end OtaLink

/-! ## The image of the master -/

/-- The flash holds the image, with the size that `OTA_MasterInit` reads. -/
structure OtaImage.At (img : OtaImage) (flash : Cells) (addr : ℕ) : Prop where
  size_eq : u32 (bytesToUint32 flash (addr + otaBinSizeOffset) + otaAppendInfoLen) = img.size
  bytes_eq : NorFlash.read flash addr img.size = img.bytes
  fits : img.size ≤ otaSlotLen

/-- The frame of block `n`. -/
def OtaImage.dataFrame (img : OtaImage) (n : ℕ) : List UInt8 :=
  otaFrameTypeData :: (uint16ToBstream n ++ img.block (n - 1))

section Image

variable {img : OtaImage} {flash : Cells} {addr k n : ℕ}

theorem OtaImage.At.read_block (h : img.At flash addr) :
    NorFlash.read flash (addr + blockLen * k) (img.block k).length = img.block k := by
  have hlength := img.length_block k
  apply List.ext_getElem
  · exact length_read _ _ _
  intro i hi hi'
  have hlt : blockLen * k + i < img.bytes.length := by
    show blockLen * k + i < img.size
    omega
  have hbyte : img.bytes[blockLen * k + i] = flash (addr + (blockLen * k + i)) := by
    have hread := getElem_read flash addr (n := img.size) (i := blockLen * k + i)
      (by rw [h.bytes_eq]; exact hlt)
    simp only [h.bytes_eq] at hread
    exact hread
  have hblock : (img.block k)[i] = img.bytes[blockLen * k + i] := by
    simp only [OtaImage.block, List.getElem_take, List.getElem_drop]
  rw [getElem_read, hblock, hbyte, Nat.add_assoc]

theorem OtaImage.At.blocks_le (h : img.At flash addr) : img.blocks ≤ 1280 := by
  have hfits := h.fits
  unfold otaSlotLen at hfits
  unfold OtaImage.blocks blockLen otaFramePayloadMax
  omega

theorem length_dataFrame : (img.dataFrame n).length = 3 + (img.block (n - 1)).length := by
  simp [OtaImage.dataFrame, uint16ToBstream]
  omega

theorem length_dataFrame_le : (img.dataFrame n).length ≤ otaFrameSize := by
  have hblock : (img.block (n - 1)).length ≤ blockLen := by
    rw [img.length_block]
    exact Nat.min_le_left _ _
  rw [length_dataFrame]
  unfold blockLen at hblock
  unfold otaFrameSize otaFramePayloadMax at *
  omega

end Image

/-! ## The master -/

namespace OtaMaster

/-- The last frame sent carries a block of the image. -/
structure SentBlock (img : OtaImage) (m : OtaMaster) : Prop where
  pos : 0 < m.blockNum
  le : m.blockNum ≤ img.blocks
  finish_iff : m.finishFlag = true ↔ m.blockNum = img.blocks
  addr_eq : m.blockNum < img.blocks → m.flashAddr = m.binAddr + blockLen * m.blockNum
  tx : m.txFrame.Begins otaFrameTypeData (uint16ToBstream m.blockNum ++ img.block (m.blockNum - 1))
  len_eq : m.len = 3 + (img.block (m.blockNum - 1)).length

/-- The master is in a transfer of the image, or will be. -/
structure Serves (img : OtaImage) (m : OtaMaster) : Prop where
  image : img.At m.flash m.binAddr
  addr_le : m.binAddr ≤ otaMasterBinAddr2
  total_eq : m.totalBinSize = img.size
  max_eq : m.maxBlockNum = img.blocks
  fresh : m.state = .idle ∨ m.state = .fwVerWait ∨ m.state = .startRspWait →
    m.blockNum = 0 ∧ m.finishFlag = false ∧ m.flashAddr = m.binAddr
  version : m.state = .fwVerWait →
    2 ≤ m.len ∧ m.len ≤ otaFrameSize ∧ m.txFrame.Begins otaFrameTypeCmd [otaCmdIdVersionReq]
  start : m.state = .startRspWait → m.len = 4 ∧
    m.txFrame.Begins otaFrameTypeCmd (otaCmdIdStartReq :: uint16ToBstream img.blocks)
  data : m.state = .dataAckWait → m.SentBlock img
  finish : m.state = .endRspWait → 2 ≤ m.len ∧ m.len ≤ otaFrameSize ∧
    m.txFrame.Begins otaFrameTypeCmd (otaCmdIdEndReq :: uint32ToBstream img.size)

variable {img : OtaImage} {m t : OtaMaster}

/-- A key begins a transfer. -/
theorem serves_init (m : OtaMaster) {addr : ℕ} (h : img.At m.flash addr)
    (haddr : addr ≤ otaMasterBinAddr2) : (otaMasterInit m addr).Serves img := by
  have hfits := h.fits
  unfold otaSlotLen at hfits
  have hmax : u16 (u32 (img.size + blockLen - 1) / blockLen) = img.blocks := by
    have hblocks := h.blocks_le
    unfold OtaImage.blocks blockLen otaFramePayloadMax at *
    rw [u32_of_lt (by omega), u16_of_lt (by omega)]
  refine ⟨h, haddr, h.size_eq, ?_, fun _ => ⟨rfl, rfl, rfl⟩, (fun hs => by cases hs),
    (fun hs => by cases hs), (fun hs => by cases hs), fun hs => by cases hs⟩
  show u16 (u32 (u32 _ + blockLen - 1) / blockLen) = img.blocks
  rw [h.size_eq]
  exact hmax

/-- The bytes that are left behind `k` blocks fill a block, or they are the last one. -/
theorem left_eq (hblocks : m.blockNum < img.blocks) (hfits : img.size ≤ otaSlotLen) :
    u32Sub img.size (m.blockNum * blockLen) = img.size - blockLen * m.blockNum ∧
      (blockLen < img.size - blockLen * m.blockNum ↔ m.blockNum + 1 ≠ img.blocks) := by
  have hlt := img.block_lt_iff.mp hblocks
  have hnext : m.blockNum + 1 < img.blocks ↔ _ := img.block_lt_iff
  have hsize := hfits
  unfold otaSlotLen at hsize
  unfold blockLen otaFramePayloadMax at *
  refine ⟨?_, by omega⟩
  rw [u32Sub_of_le (by omega) (by omega)]
  omega

/-- `OTA_BuildDataFrame` builds the frame of the next block. -/
theorem otaBuildDataFrame_spec (h : img.At m.flash m.binAddr)
    (haddr : m.binAddr ≤ otaMasterBinAddr2) (htotal : m.totalBinSize = img.size)
    (hlt : m.blockNum < img.blocks) (hfinish : m.finishFlag = false)
    (hflash : m.flashAddr = m.binAddr + blockLen * m.blockNum) :
    { (otaBuildDataFrame m).1 with len := (otaBuildDataFrame m).2 }.SentBlock img ∧
      (otaBuildDataFrame m).1.core = { m.core with
        flashAddr := (otaBuildDataFrame m).1.flashAddr
        blockNum := m.blockNum + 1
        finishFlag := (otaBuildDataFrame m).1.finishFlag } ∧
      (otaBuildDataFrame m).1.air = m.air := by
  obtain ⟨hleft, hfull⟩ := left_eq hlt h.fits
  have hlength := img.length_block m.blockNum
  have hblocks := h.blocks_le
  have hfits := h.fits
  unfold otaSlotLen at hfits
  unfold otaMasterBinAddr2 at haddr
  have hnum : u16 (m.blockNum + 1) = m.blockNum + 1 := u16_of_lt (by omega)
  have hframe : (if blockLen < img.size - blockLen * m.blockNum then otaFramePayloadMax
      else u32 (img.size - blockLen * m.blockNum + 2)) = (img.block m.blockNum).length + 2 := by
    rw [hlength]
    unfold blockLen otaFramePayloadMax at *
    split
    · omega
    · rw [u32_of_lt (by omega)]
      omega
  have hn : u32Sub ((img.block m.blockNum).length + 2) 2 = (img.block m.blockNum).length := by
    rw [u32Sub_of_le (by omega) (by unfold blockLen otaFramePayloadMax at hlength; omega)]
    omega
  have hread : NorFlash.read m.flash m.flashAddr (img.block m.blockNum).length =
      img.block m.blockNum := by
    rw [hflash]
    exact h.read_block
  have hbuild : otaBuildDataFrame m =
      ({ m with
          finishFlag := if blockLen < img.size - blockLen * m.blockNum then m.finishFlag else true
          blockNum := m.blockNum + 1
          txFrame := ⟨otaFrameTypeData,
            memcpy (memcpy m.txFrame.payload 0 (uint16ToBstream (m.blockNum + 1)))
              (0 + (uint16ToBstream (m.blockNum + 1)).length) (img.block m.blockNum)⟩
          flashAddr := u32 (m.flashAddr + (img.block m.blockNum).length)
          ops := m.ops ++ [.access .txFramePayload 0 2,
            .access .txFramePayload 2 (img.block m.blockNum).length,
            .flashRead m.flashAddr (img.block m.blockNum).length] },
        1 + ((img.block m.blockNum).length + 2)) := by
    unfold otaBuildDataFrame
    dsimp only
    rw [htotal, hleft, hframe, hn, hnum, hread]
    rfl
  rw [hbuild]
  refine ⟨⟨Nat.succ_pos _, hlt, ?_, fun hmore => ?_, ⟨rfl, ?_⟩, ?_⟩, rfl, rfl⟩
  · -- the flag is set with the last block
    show (if blockLen < img.size - blockLen * m.blockNum then m.finishFlag else true) = true ↔ _
    rw [hfinish]
    show _ ↔ m.blockNum + 1 = img.blocks
    by_cases hcase : blockLen < img.size - blockLen * m.blockNum
    · rw [if_pos hcase]
      exact iff_of_false Bool.false_ne_true (hfull.mp hcase)
    · rw [if_neg hcase]
      exact iff_of_true rfl (not_not.mp fun hne => hcase (hfull.mpr hne))
  · -- all blocks before the last are full
    have hmore : m.blockNum + 1 < img.blocks := hmore
    have hcase := hfull.mpr (Nat.ne_of_lt hmore)
    show u32 (m.flashAddr + (img.block m.blockNum).length) =
      m.binAddr + blockLen * (m.blockNum + 1)
    rw [hlength, hflash]
    unfold blockLen otaFramePayloadMax at *
    rw [u32_of_lt (by omega)]
    omega
  · show HasBytes (memcpy (memcpy _ _ _) _ _) 0 (uint16ToBstream (m.blockNum + 1) ++
      img.block (m.blockNum + 1 - 1))
    rw [memcpy_memcpy, Nat.add_sub_cancel, hasBytes_zero]
    exact bytes_memcpy_self _ _
  · show 1 + ((img.block m.blockNum).length + 2) = 3 + (img.block (m.blockNum + 1 - 1)).length
    rw [Nat.add_sub_cancel]
    omega

/-- A block that is sent is a whole frame of the image. -/
theorem SentBlock.frame (h : m.SentBlock img) : m.txFrame.bytes m.len = img.dataFrame m.blockNum := by
  have hbytes := bytes_of_begins h.tx
  have hlength : (uint16ToBstream m.blockNum ++ img.block (m.blockNum - 1)).length + 1 = m.len := by
    rw [h.len_eq, List.length_append]
    show 2 + _ + 1 = _
    omega
  rwa [hlength] at hbytes

/-- The same block, with other buffers. -/
theorem SentBlock.congr (h : m.SentBlock img) (hcore : t.core = { m.core with state := t.state })
    (htx : t.txFrame = m.txFrame) (hlen : t.len = m.len) : t.SentBlock img := by
  have hnum : t.blockNum = m.blockNum := congrArg MasterCore.blockNum hcore
  have hfinish : t.finishFlag = m.finishFlag := congrArg MasterCore.finishFlag hcore
  have haddr : t.flashAddr = m.flashAddr := congrArg MasterCore.flashAddr hcore
  have hbin : t.binAddr = m.binAddr := congrArg MasterCore.binAddr hcore
  constructor
  case pos => exact hnum ▸ h.pos
  case le => exact hnum ▸ h.le
  case finish_iff => rw [hfinish, hnum, h.finish_iff]
  case addr_eq =>
    rw [hnum, haddr, hbin]
    exact h.addr_eq
  case tx =>
    rw [htx, hnum]
    exact h.tx
  case len_eq => rw [hlen, hnum, h.len_eq]

/-- The last accesses do not matter. -/
theorem Serves.clearOps (h : m.Serves img) :
    ({ m with ops := [] } : OtaMaster).Serves img :=
  ⟨h.image, h.addr_le, h.total_eq, h.max_eq, h.fresh, h.version, h.start,
    fun hs => (h.data hs).congr rfl rfl rfl, h.finish⟩

/-- Another state, with the same image. -/
theorem Serves.move (h : m.Serves img) {state : OtaMasterState}
    (hcore : t.core = { m.core with state := state })
    (hfresh : state = .idle ∨ state = .fwVerWait ∨ state = .startRspWait →
      m.state = .idle ∨ m.state = .fwVerWait ∨ m.state = .startRspWait)
    (hversion : state = .fwVerWait →
      2 ≤ t.len ∧ t.len ≤ otaFrameSize ∧ t.txFrame.Begins otaFrameTypeCmd [otaCmdIdVersionReq])
    (hstart : state = .startRspWait → t.len = 4 ∧
      t.txFrame.Begins otaFrameTypeCmd (otaCmdIdStartReq :: uint16ToBstream img.blocks))
    (hdata : state = .dataAckWait → t.SentBlock img)
    (hfinish : state = .endRspWait → 2 ≤ t.len ∧ t.len ≤ otaFrameSize ∧
      t.txFrame.Begins otaFrameTypeCmd (otaCmdIdEndReq :: uint32ToBstream img.size)) :
    t.Serves img := by
  have hstate : t.state = state := congrArg MasterCore.state hcore
  have hflash : t.flash = m.flash := congrArg MasterCore.flash hcore
  have hbin : t.binAddr = m.binAddr := congrArg MasterCore.binAddr hcore
  have hnum : t.blockNum = m.blockNum := congrArg MasterCore.blockNum hcore
  have hflag : t.finishFlag = m.finishFlag := congrArg MasterCore.finishFlag hcore
  have haddr : t.flashAddr = m.flashAddr := congrArg MasterCore.flashAddr hcore
  subst hstate
  refine ⟨?_, hbin ▸ h.addr_le, (congrArg MasterCore.totalBinSize hcore).trans h.total_eq,
    (congrArg MasterCore.maxBlockNum hcore).trans h.max_eq, fun hs => ?_, hversion, hstart, hdata,
    hfinish⟩
  · rw [hflash, hbin]
    exact h.image
  · rw [hnum, hflag, haddr, hbin]
    exact h.fresh (hfresh hs)

/-- The next block is sent. -/
theorem Serves.sendBlock (h : m.Serves img) {m' : OtaMaster}
    (hcore : m'.core = { m.core with state := .dataAckWait }) (hlt : m.blockNum < img.blocks)
    (hfinish : m.finishFlag = false)
    (hflash : m.flashAddr = m.binAddr + blockLen * m.blockNum) :
    m'.sendBlock.Serves img ∧ m'.sendBlock.flash = m.flash ∧
      m'.sendBlock.state = .dataAckWait ∧ m'.sendBlock.blockNum = m.blockNum + 1 ∧
        m'.sendBlock.air = m'.air ++ [img.dataFrame (m.blockNum + 1)] := by
  have hnum' : m'.blockNum = m.blockNum := congrArg MasterCore.blockNum hcore
  have hflag' : m'.finishFlag = m.finishFlag := congrArg MasterCore.finishFlag hcore
  have haddr' : m'.flashAddr = m.flashAddr := congrArg MasterCore.flashAddr hcore
  have hbin' : m'.binAddr = m.binAddr := congrArg MasterCore.binAddr hcore
  have hcells' : m'.flash = m.flash := congrArg MasterCore.flash hcore
  have htotal' : m'.totalBinSize = m.totalBinSize := congrArg MasterCore.totalBinSize hcore
  have himage : img.At m'.flash m'.binAddr := by
    rw [hcells', hbin']
    exact h.image
  obtain ⟨hsent, hbuilt, hbefore⟩ := otaBuildDataFrame_spec himage (hbin' ▸ h.addr_le)
    (htotal'.trans h.total_eq) (hnum' ▸ hlt) (hflag'.trans hfinish)
    (by rw [haddr', hbin', hnum']; exact hflash)
  have hstate : m'.sendBlock.state = .dataAckWait :=
    (congrArg MasterCore.state hbuilt).trans (congrArg MasterCore.state hcore)
  have hblock : m'.sendBlock.blockNum = m.blockNum + 1 :=
    (congrArg MasterCore.blockNum hbuilt).trans (congrArg (· + 1) hnum')
  have hcells : m'.sendBlock.flash = m'.flash := congrArg MasterCore.flash hbuilt
  have hsent' : m'.sendBlock.SentBlock img :=
    ⟨hsent.pos, hsent.le, hsent.finish_iff, hsent.addr_eq, hsent.tx, hsent.len_eq⟩
  have hair : m'.sendBlock.air = m'.air ++ [m'.sendBlock.txFrame.bytes m'.sendBlock.len] := by
    have hlen : m'.sendBlock.len ≤ otaFrameSize := by
      rw [hsent'.len_eq, ← length_dataFrame]
      exact length_dataFrame_le
    rw [← hbefore]
    exact if_neg (Nat.not_lt_of_le (Nat.le_trans hlen (by decide)))
  refine ⟨⟨?_, ?_, ?_, ?_, fun hs => ?_, fun hs => ?_, fun hs => ?_, fun _ => hsent', fun hs => ?_⟩,
    hcells.trans hcells', hstate, hblock, ?_⟩
  · have hbin : m'.sendBlock.binAddr = m'.binAddr := congrArg MasterCore.binAddr hbuilt
    rw [hcells, hbin]
    exact himage
  · have hbin : m'.sendBlock.binAddr = m'.binAddr := congrArg MasterCore.binAddr hbuilt
    rw [hbin, hbin']
    exact h.addr_le
  · exact (congrArg MasterCore.totalBinSize hbuilt).trans (htotal'.trans h.total_eq)
  · exact (congrArg MasterCore.maxBlockNum hbuilt).trans
      ((congrArg MasterCore.maxBlockNum hcore).trans h.max_eq)
  · simp [hstate] at hs
  · simp [hstate] at hs
  · simp [hstate] at hs
  · simp [hstate] at hs
  · rw [hair, hsent'.frame, hblock]

/-- The block that is sent next. -/
theorem Serves.next (h : m.Serves img)
    (hstate : m.state = .startRspWait ∨ (m.state = .dataAckWait ∧ m.finishFlag = false)) :
    m.blockNum < img.blocks ∧ m.finishFlag = false ∧
      m.flashAddr = m.binAddr + blockLen * m.blockNum := by
  rcases hstate with hstart | ⟨hdata, hmore⟩
  · obtain ⟨hzero, hflag, hflash⟩ := h.fresh (.inr (.inr hstart))
    rw [hzero]
    exact ⟨img.blocks_pos, hflag, hflash⟩
  · have hsent := h.data hdata
    have hne : m.blockNum ≠ img.blocks := by
      intro heq
      rw [hsent.finish_iff.mpr heq] at hmore
      cases hmore
    have hlt := Nat.lt_of_le_of_ne hsent.le hne
    exact ⟨hlt, hmore, hsent.addr_eq hlt⟩

/-- A call keeps the transfer, if it is given no frame that the master does not wait for while it
has a request with data on the air. -/
theorem Serves.turn (h : m.Serves img) {msg : Option OtaMsg} (hturn : MasterTurn m msg t)
    (hawaits : ∀ Data hD, msg = some (.data Data hD) →
      m.state = .startRspWait ∨ m.state = .dataAckWait → m.Awaits Data)
    (hlen : ∀ Data hD, msg = some (.data Data hD) → 2 ≤ (Data 0).toNat) : t.Serves img := by
  cases hturn with
  | quiet hcore htx hkeep hair =>
    refine Serves.move h hcore id ?_ ?_ (fun hs => ?_) ?_
    · rw [htx, hkeep]
      exact h.version
    · rw [htx, hkeep]
      exact h.start
    · refine (h.data hs).congr ?_ htx hkeep
      rw [show t.state = m.state from congrArg MasterCore.state hcore]
      exact hcore
    · rw [htx, hkeep]
      exact h.finish
  | failed hcore hair =>
    exact h.move hcore (fun hs => by simp at hs) (fun hs => by cases hs) (fun hs => by cases hs)
      (fun hs => by cases hs) fun hs => by cases hs
  | resend hwaits hcore htx hsame hair =>
    -- with data on the air, the length is still that of the request
    have hkeep : m.state = .startRspWait ∨ m.state = .dataAckWait → t.len = m.len := by
      intro hs
      rcases hsame with hkeep | ⟨Data, hD, hmsg, hnot, hrest⟩
      · exact hkeep
      · exact absurd (hawaits Data hD hmsg hs) hnot
    have hrange : 2 ≤ m.len ∧ m.len ≤ otaFrameSize → 2 ≤ t.len ∧ t.len ≤ otaFrameSize := by
      intro hm
      rcases hsame with hkeep | ⟨Data, hD, hmsg, -, heq, hle⟩
      · rwa [hkeep]
      · exact ⟨heq ▸ hlen Data hD hmsg, hle⟩
    refine Serves.move h hcore id (fun hs => ?_) (fun hs => ?_) (fun hs => ?_)
      fun hs => ?_
    · obtain ⟨hlo, hhi, hbegins⟩ := h.version hs
      obtain ⟨hlo', hhi'⟩ := hrange ⟨hlo, hhi⟩
      exact ⟨hlo', hhi', htx ▸ hbegins⟩
    · obtain ⟨hfour, hbegins⟩ := h.start hs
      exact ⟨(hkeep (.inl hs)).trans hfour, htx ▸ hbegins⟩
    · refine (h.data hs).congr ?_ htx (hkeep (.inr hs))
      rw [show t.state = m.state from congrArg MasterCore.state hcore]
      exact hcore
    · obtain ⟨hlo, hhi, hbegins⟩ := h.finish hs
      obtain ⟨hlo', hhi'⟩ := hrange ⟨hlo, hhi⟩
      exact ⟨hlo', hhi', htx ▸ hbegins⟩
  | ask hstate hcore hsends =>
    refine h.move hcore (fun _ => .inl hstate) (fun _ => ?_) (fun hs => by cases hs)
      (fun hs => by cases hs) fun hs => by cases hs
    rw [hsends.len]
    exact ⟨Nat.le_refl 2, by decide, hsends.tx⟩
  | start Data hD hmsg hstate hwait hcore hsends =>
    refine h.move hcore (fun _ => .inr (.inl hstate)) (fun hs => by cases hs) (fun _ => ?_)
      (fun hs => by cases hs) fun hs => by cases hs
    exact ⟨hsends.len, h.max_eq ▸ hsends.tx⟩
  | block Data hD hmsg hstate hwait m' hcore hair heq =>
    obtain ⟨hlt, hflag, hflash⟩ := h.next hstate
    exact heq ▸ (h.sendBlock hcore hlt hflag hflash).1
  | finish Data hD hmsg hstate hwait hfinish hcore hsends =>
    refine h.move hcore (fun hs => by simp at hs) (fun hs => by cases hs) (fun hs => by cases hs)
      (fun hs => by cases hs) fun _ => ?_
    rw [hsends.len]
    exact ⟨by decide, by decide, h.total_eq ▸ hsends.tx⟩
  | ended hstate hcore hair =>
    exact h.move hcore (fun hs => by simp at hs) (fun hs => by cases hs) (fun hs => by cases hs)
      (fun hs => by cases hs) fun hs => by cases hs

end OtaMaster

end TlBleSdk.Ota
