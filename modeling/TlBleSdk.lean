import TlBleSdk.Lib.Run
import TlBleSdk.Lib.NorFlash
import TlBleSdk.Lib.Ring
import TlBleSdk.Hci.TrDef
import TlBleSdk.Hci.Fifo
import TlBleSdk.Dfu.Defs
import TlBleSdk.Dfu.Steps
import TlBleSdk.Dfu.Image
import TlBleSdk.Dfu.Session
import TlBleSdk.Dfu.Erase
import TlBleSdk.Dfu.Answers
import TlBleSdk.Lib.Framing
import TlBleSdk.Lib.Crc
import TlBleSdk.Hci.TrH4
import TlBleSdk.Hci.TrH4Packets
import TlBleSdk.Hci.TrH4Reassembly
import TlBleSdk.Hci.TrH4Runs
import TlBleSdk.Hci.TrH4Chunking
import TlBleSdk.Hci.TrH4Cut
import TlBleSdk.Hci.TrH5
import TlBleSdk.Hci.TrH5Frames
import TlBleSdk.Hci.TrH5Runs
import TlBleSdk.Hci.TrTx
import TlBleSdk.Hci.TrH4Walk
import TlBleSdk.Hci.TrH4Acts
import TlBleSdk.Hci.TrH4Bounds
import TlBleSdk.Hci.TrH5Cut
import TlBleSdk.Hci.H5
import TlBleSdk.Hci.H5Steps
import TlBleSdk.Hci.H5Frame
import TlBleSdk.Hci.H5Ack
import TlBleSdk.Hci.H5Store
import TlBleSdk.Hci.H5Window
import TlBleSdk.Lib.GoBackN
import TlBleSdk.Hci.H5Pdu
import TlBleSdk.Ota.Master
import TlBleSdk.Ota.Slave
import TlBleSdk.Ota.SlaveSteps
import TlBleSdk.Common.DeviceManage
import TlBleSdk.Common.SoftTimer
import TlBleSdk.Common.SoftTimerWakeup
import TlBleSdk.Lib.LinkedList
import TlBleSdk.Common.TlQueue
import TlBleSdk.Lib.Deadline
import TlBleSdk.Esl.Defs
import TlBleSdk.Esl.EpdDisplay
import TlBleSdk.Esl.Display
import TlBleSdk.Esl.Pending
import TlBleSdk.Esl.Timed
import TlBleSdk.Esl.Response
import TlBleSdk.Common.SimpleSdp
import TlBleSdk.Esl.ImageStorage
import TlBleSdk.Esl.ImagePower
import TlBleSdk.Eslp.OtaClient
import TlBleSdk.Eslp.OtaData
import TlBleSdk.Eslp.OtaSession
import TlBleSdk.Eslp.ApDefs
import TlBleSdk.Eslp.ApDevices
import TlBleSdk.Eslp.ApPawr
import TlBleSdk.Debug.PrintFifo
import TlBleSdk.Debug.TlkapiDebug
import TlBleSdk.Debug.MyudbUsb
import TlBleSdk.Usb.HidReport
import TlBleSdk.Usb.HidOrder
import TlBleSdk.Usb.UsbKb
import TlBleSdk.Usb.UsbControl
import TlBleSdk.Lib.Checked
import TlBleSdk.TlUsb.Usbd
import TlBleSdk.TlUsb.Requests
import TlBleSdk.Lib.Escape
import TlBleSdk.Hci.Slip
import TlBleSdk.Keyboard.KeyScan
import TlBleSdk.Esl.Led
import TlBleSdk.Dfu.EventQueue
import TlBleSdk.Dfu.TwoRuns
import TlBleSdk.Esl.VendorImage
import TlBleSdk.Hci.H5Config
import TlBleSdk.Lib.Stamped
import TlBleSdk.Hci.H5Link
import TlBleSdk.Hci.SlipDecode
import TlBleSdk.Esl.Clock
import TlBleSdk.Hci.H5LinkBytes
import TlBleSdk.Common.PeerHandles
import TlBleSdk.Esl.ImageBounds
import TlBleSdk.Esl.Indices
import TlBleSdk.Common.MyFifo
import TlBleSdk.Common.SdpDiscovery
import TlBleSdk.Common.SdpReturns
import TlBleSdk.Common.SdpLeft
import TlBleSdk.Common.AttServer
import TlBleSdk.Common.SdpCharacteristics
import TlBleSdk.Common.SdpReferences
import TlBleSdk.Ota.SlaveSafe
import TlBleSdk.Ota.SlaveBoot
import TlBleSdk.Ota.SlaveCheck
import TlBleSdk.Ota.SlaveAccepts
import TlBleSdk.Common.MyRingBuffer
import TlBleSdk.Eslp.RingBuf
import TlBleSdk.Keyboard.GhostKey
import TlBleSdk.Keyboard.KeyReport
import TlBleSdk.Ota.FlashFwCheck
import TlBleSdk.TlUsb.DescriptorWalk
import TlBleSdk.Debug.MyudbCmd
import TlBleSdk.Debug.SendStrData
import TlBleSdk.Lib.Stores
import TlBleSdk.Eslp.ApEncode
import TlBleSdk.Eslp.ApCommands
import TlBleSdk.Eslp.ShellWords
import TlBleSdk.Eslp.ParseChar
import TlBleSdk.Drivers.Flash
import TlBleSdk.Lib.Copies
import TlBleSdk.Common.TlString
import TlBleSdk.Lib.Records
import TlBleSdk.Profile.SvcAdv
import TlBleSdk.Profile.SvcAdvBuild
import TlBleSdk.Eslp.ApHex
import TlBleSdk.Drivers.UartDiv
import TlBleSdk.Esl.Gui
import TlBleSdk.Esl.VendorRender
import TlBleSdk.Lib.Search
import TlBleSdk.Drivers.CanTiming
import TlBleSdk.Lib.BitFields
import TlBleSdk.Drivers.CanMailbox
import TlBleSdk.Drivers.CanRxFifo
import TlBleSdk.Lib.Phases
import TlBleSdk.Common.BltLed
import TlBleSdk.Lib.Sink
import TlBleSdk.Common.BatteryCheck
import TlBleSdk.Lib.Registry
import TlBleSdk.Esl.Peripherals
import TlBleSdk.Lib.EndAround
import TlBleSdk.Drivers.Lin
import TlBleSdk.Hci.H5Flow
import TlBleSdk.Hci.H5Exchange
import TlBleSdk.Hci.H5Delivery
import TlBleSdk.Hci.H5Wire
import TlBleSdk.Dfu.Update
import TlBleSdk.Dfu.Damage
import TlBleSdk.Esl.Objects
import TlBleSdk.Ota.Link
import TlBleSdk.Ota.LinkInv
import TlBleSdk.Ota.LinkSafe
import TlBleSdk.Ota.LinkLive
