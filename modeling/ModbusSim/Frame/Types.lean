import ModbusSim.Lib.Raise
import ModbusSim.Lib.Struct

/-!
# Frames: constants, errors and dataclasses

The vocabulary of `frame.py`. Integer fields of a request or a response are unbounded, as in the
source: whether they fit the wire is decided by the encoders.
-/

namespace ModbusSim.Frame

open PyStruct

/-! ### Protocol constants -/

def mbapHeaderLen : Nat := 7
def protocolId : Int := 0
def maxAduLen : Nat := 260
def maxPduLen : Nat := 253
def minLengthField : Int := 2
def maxLengthField : Int := 260

def readCoils : Nat := 0x01
def readDiscreteInputs : Nat := 0x02
def readHoldingRegisters : Nat := 0x03
def readInputRegisters : Nat := 0x04
def writeSingleCoil : Nat := 0x05
def writeSingleRegister : Nat := 0x06
def writeMultipleCoils : Nat := 0x0F
def writeMultipleRegisters : Nat := 0x10

def supportedFunctionCodes : List Nat :=
  [readCoils, readDiscreteInputs, readHoldingRegisters, readInputRegisters,
    writeSingleCoil, writeSingleRegister, writeMultipleCoils, writeMultipleRegisters]

def exceptionMask : Nat := 0x80

def illegalFunction : Nat := 0x01
def illegalDataAddress : Nat := 0x02
def illegalDataValue : Nat := 0x03
def serverDeviceFailure : Nat := 0x04

def coilOn : Int := 0xFF00
def coilOff : Int := 0x0000

def maxReadBits : Int := 2000
def maxReadRegisters : Int := 125
def maxWriteCoils : Int := 1968
def maxWriteRegisters : Int := 123

def registerMax : Int := 0xFFFF

/-! ### Errors -/

/-- The subclasses of `ModbusError`. -/
inductive ErrorKind where
  | illegalFunction
  | illegalDataAddress
  | illegalDataValue
  | serverDeviceFailure
  deriving DecidableEq, Repr

/-- A protocol error; the function code is absent where the raising code does not know it. -/
structure ModbusError where
  kind : ErrorKind
  message : String
  functionCode : Option Nat
  deriving DecidableEq, Repr

def ModbusError.exceptionCode (e : ModbusError) : Nat :=
  match e.kind with
  | .illegalFunction => Frame.illegalFunction
  | .illegalDataAddress => Frame.illegalDataAddress
  | .illegalDataValue => Frame.illegalDataValue
  | .serverDeviceFailure => Frame.serverDeviceFailure

/-- What a call can raise: a protocol error, or an exception of the language itself. -/
inductive Exn where
  | modbus (error : ModbusError)
  | py (error : PyError)
  deriving DecidableEq, Repr

def liftPy {α : Type} (result : Except PyError α) : Except Exn α := result.mapError .py

@[simp] theorem liftPy_ok {α : Type} (a : α) : liftPy (.ok a) = .ok a := rfl

@[simp] theorem liftPy_error {α : Type} (e : PyError) :
    liftPy (.error e : Except PyError α) = .error (.py e) := rfl

theorem liftPy_eq_ok {α : Type} {x : Except PyError α} {a : α} :
    liftPy x = .ok a ↔ x = .ok a := by
  cases x <;> simp

def illegalFunctionError (message : String) (functionCode : Option Nat) : Exn :=
  .modbus ⟨.illegalFunction, message, functionCode⟩

def illegalDataAddressError (message : String) : Exn :=
  .modbus ⟨.illegalDataAddress, message, none⟩

def illegalDataValueError (message : String) (functionCode : Option Nat) : Exn :=
  .modbus ⟨.illegalDataValue, message, functionCode⟩

def hexByte (n : Nat) : String :=
  String.singleton (Nat.digitChar (n / 16)) ++ String.singleton (Nat.digitChar (n % 16))

def unsupportedFunctionCode (fc : Nat) : Exn :=
  illegalFunctionError ("unsupported function code 0x" ++ hexByte fc) (some fc)

/-- `data[i]`, as an integer. -/
def item (data : Bytes) (i : Nat) : Except Exn Nat :=
  match data[i]? with
  | some b => .ok b.toNat
  | none => .error (.py .indexError)

/-! ### Dataclasses -/

structure MBAPHeader where
  transactionId : Int
  protocolId : Int
  length : Int
  unitId : Int
  deriving DecidableEq, Repr

inductive Request where
  | readCoils (address count : Int)
  | readDiscreteInputs (address count : Int)
  | readHoldingRegisters (address count : Int)
  | readInputRegisters (address count : Int)
  | writeSingleCoil (address : Int) (value : Bool)
  | writeSingleRegister (address value : Int)
  | writeMultipleCoils (address : Int) (values : List Bool)
  | writeMultipleRegisters (address : Int) (values : List Int)
  deriving DecidableEq, Repr

inductive Response where
  | readCoils (bits : List Bool)
  | readDiscreteInputs (bits : List Bool)
  | readHoldingRegisters (registers : List Int)
  | readInputRegisters (registers : List Int)
  | writeSingleCoil (address : Int) (value : Bool)
  | writeSingleRegister (address value : Int)
  | writeMultipleCoils (address quantity : Int)
  | writeMultipleRegisters (address quantity : Int)
  /-- The function code is the original one, without the high bit. -/
  | exception (functionCode exceptionCode : Nat)
  deriving DecidableEq, Repr

def Request.functionCode : Request → Nat
  | .readCoils .. => Frame.readCoils
  | .readDiscreteInputs .. => Frame.readDiscreteInputs
  | .readHoldingRegisters .. => Frame.readHoldingRegisters
  | .readInputRegisters .. => Frame.readInputRegisters
  | .writeSingleCoil .. => Frame.writeSingleCoil
  | .writeSingleRegister .. => Frame.writeSingleRegister
  | .writeMultipleCoils .. => Frame.writeMultipleCoils
  | .writeMultipleRegisters .. => Frame.writeMultipleRegisters

end ModbusSim.Frame
