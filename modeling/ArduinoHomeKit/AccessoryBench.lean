import ArduinoHomeKit.Bench
import ArduinoHomeKit.CharacteristicJson

/-! A bench for the accessory side: an application without getters and setters, memory
that holds zeros, and a database of one service with the characteristics to be tried. -/

namespace ArduinoHomeKit

def benchNull : HomekitValue := { isNull := true, isStatic := false, format := .bool, union := .bits 0 }

def benchSketch : Sketch Unit where
  getter _ _ _ u := (u, [], benchNull)
  setter _ _ _ _ u := (u, [])
  callback _ _ _ _ u := u
  onResource := none

def benchRuntime : Runtime where
  cJSONParse _ := none
  toFloat _ := 0
  printFloat _ := ascii "0"
  outOfRange _ _ := 0
  stack _ := { isNull := false, isStatic := false, word := 0 }
  heap _ _ := 0
  before _ _ := 0
  freedList _ := []
  freedString _ := []

/-- A scalar value. -/
def benchScalar (format : Format) (word : Nat) : HomekitValue :=
  { isNull := false, isStatic := false, format := format, union := .bits word }

/-- A characteristic that may be read, written and subscribed to. -/
def benchCharacteristic (id : UInt32) (value : HomekitValue) : Characteristic where
  service := 0
  id := id
  type := ascii "25"
  description := none
  format := value.format
  unit := .none
  permissions := Permissions.pairedRead + Permissions.pairedWrite + Permissions.notify
  value := value
  minValue := none
  maxValue := none
  minStep := none
  maxLen := none
  maxDataLen := none
  validValues := []
  validValuesRanges := []
  callback := []
  getterEx := none
  setterEx := none

/-- Accessory 1 with one service, whose characteristics are the given ones in order. -/
def benchDatabase (characteristics : List Characteristic) : Database where
  accessories := [0]
  accessory _ := { id := 1, services := [0] }
  service _ :=
    { accessory := 0, id := 1, type := ascii "43", hidden := false, primary := true, linked := none,
      characteristics := List.range characteristics.length }
  characteristic i := characteristics.getD i (benchCharacteristic 0 benchNull)

def benchState (characteristics : List Characteristic) : AccessoryState Unit where
  database := benchDatabase characteristics
  eventQueue _ := qInit (fun _ => { characteristic := 0, value := benchNull }) 4 .lifo true
  currentCharacteristic _ := none
  currentValue _ := none
  user := ()
  now := 0

end ArduinoHomeKit
