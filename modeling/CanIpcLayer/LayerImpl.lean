import CanIpcLayer.Receiver

/-! # The layer between the server and the receiver

    `can_ipc_layer_impl.cpp` and `can_ipc_sender.cpp`: the two translations of a
    CAN port, the calls the server makes on the receiver, and the frame handed
    to the CAN driver.  The driver itself is outside the repository; a call to it
    is recorded with its arguments. -/

namespace LayerImpl

open CArrays CanStruct Receiver

variable {κ : Type}

/-- `CAN_IPC_CONFIG_T`. -/
structure CanIpcConfig where
  canPortInstance : String
  canDevPort : CanDevPort

/-- The number of a device port. -/
def CanDevPort.value : CanDevPort → UInt32
  | .canDevPort5   => 5
  | .canDevPort6   => 6
  | .canDevPort7   => 7
  | .canDevPort8   => 8
  | .canDevPort9   => 9
  | .other value _ => value

/-- `static_cast<CAN_DEV_PORT_E>`. -/
def CanDevPort.ofValue (value : UInt32) : CanDevPort :=
  if value = 5 then .canDevPort5
  else if value = 6 then .canDevPort6
  else if value = 7 then .canDevPort7
  else if value = 8 then .canDevPort8
  else if value = 9 then .canDevPort9
  else if h : value < 5 ∨ 9 < value then .other value h
  else .canDevPort5

/-- `lib_get_can_dev_port`. -/
def libGetCanDevPort (canPort : CanPort) : CanDevPort :=
  match canPort with
  | .canPort5 => .canDevPort5
  | .canPort6 => .canDevPort5
  | .canPort7 => .canDevPort5
  | .canPort8 => .canDevPort5
  | .canPort9 => .canDevPort5
  | .other .. => .canDevPort5

/-- `lib_set_can_ipc_handle`. -/
def libSetCanIpcHandle (canPort : CanPort) : CanIpcConfig :=
  match canPort with
  | .canPort5 => ⟨"can5_ins0ch4", .canDevPort5⟩
  | .canPort6 => ⟨"can6_ins0ch6", .canDevPort6⟩
  | .canPort7 => ⟨"can7_ins0ch7", .canDevPort7⟩
  | .canPort8 => ⟨"can8_ins0ch2", .canDevPort8⟩
  | .canPort9 => ⟨"can9_ins0ch3", .canDevPort9⟩
  | .other .. => ⟨"can5_ins0ch4", .canDevPort5⟩

/-- The device port `receive_ipc_can_task` hands to `match_can_filter` for a
    channel: through the 8-bit `can_port_index` and back. -/
def polledDevPort (config : CanIpcConfig) : CanDevPort :=
  CanDevPort.ofValue (CanDevPort.value config.canDevPort).toUInt8.toUInt32

/-- `lib_can_register_can_filter`. -/
def libCanRegisterCanFilter (r : CanIpcReceiver κ) (canFilter : CanFilter)
    (canRxCallback : Option κ) : Except Fault (Int × CanIpcReceiver κ) :=
  registerCanFilter r
    { canFilterId := canFilter.id
      canFilterIdCnt := canFilter.idCnt
      canPort := libGetCanDevPort canFilter.canPort
      canFilterCallback := canRxCallback }

/-- `lib_can_deregister_can_filter`. -/
def libCanDeregisterCanFilter (r : CanIpcReceiver κ) (canFilter : CanFilter) :
    Except Fault (Int × CanIpcReceiver κ) :=
  deregisterCanFilter r
    { canFilterId := canFilter.id
      canFilterIdCnt := canFilter.idCnt
      canPort := libGetCanDevPort canFilter.canPort
      canFilterCallback := none }

/-! ## Sending -/

/-- The fields of `struct canframe` that `send_can_data` sets, its time stamp
    apart. -/
structure DriverFrame where
  canid : UInt32
  count : UInt8
  canType : UInt8
  canChannel : UInt8
  len : UInt8
  data : Vector UInt8 64
  deriving DecidableEq

/-- A `canSendMsgFrame` call: the channel name and the frame. -/
structure DriverSend where
  target : String
  frame : DriverFrame
  deriving DecidableEq

/-- `BSWAP_32`. -/
def bswap32 (x : UInt32) : UInt32 :=
  ((x &&& 0xff000000) >>> 24) ||| ((x &&& 0x00ff0000) >>> 8)
    ||| ((x &&& 0x0000ff00) <<< 8) ||| ((x &&& 0x000000ff) <<< 24)

/-- `memcpy` of the first `n` bytes of a payload into a zero-filled one. -/
def copyPayload (data : Vector UInt8 64) (n : UInt8) : Vector UInt8 64 :=
  Vector.ofFn fun i => if i.val < n.toNat then data[i] else 0

/-- `send_can_data`. -/
def sendCanData (config : CanIpcConfig) (frame : CanFrame) : DriverSend where
  target := config.canPortInstance
  frame :=
    { canid := bswap32 frame.id
      count := 1
      canType := frame.flags
      canChannel := (CanDevPort.value config.canDevPort).toUInt8
      len := canDlcToBytes frame.dlc
      data := copyPayload frame.data (canDlcToBytes frame.dlc) }

/-- `lib_can_send`. -/
def libCanSend (canPort : CanPort) (frame : CanFrame) : DriverSend :=
  sendCanData (libSetCanIpcHandle canPort) frame

end LayerImpl
