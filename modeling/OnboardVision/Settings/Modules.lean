import OnboardVision.Settings.Hub

/-!
# Optional modules and the activation of vision

The module table is a row of bytes in flash.  A module is on exactly if its byte is `1`: erased
flash, a missing byte and any other value leave it off.  `Hub.activate` starts vision only if its
module is on, and then with a snapshot that follows the hub.
-/

namespace OnboardVision

/-- The optional modules, in the order of their bytes in flash. -/
inductive Module where
  | cameraStab | gps | usbBridge | altitude | airspeed | txPid | vision
  deriving DecidableEq, Repr

namespace Module

/-- The place of a module's byte. -/
def place : Module → Nat
  | cameraStab => 0
  | gps => 1
  | usbBridge => 2
  | altitude => 3
  | airspeed => 4
  | txPid => 5
  | vision => 6

/-- All modules in order. -/
def all : List Module := [cameraStab, gps, usbBridge, altitude, airspeed, txPid, vision]

end Module

/-- Which modules are on. -/
structure ModuleTable where
  /-- Whether the module is on. -/
  isOn : Module → Bool

namespace ModuleTable

/-- How many bytes of flash the table takes. -/
def size : Nat := 8

/-- The byte of a module that is on. -/
def onByte : UInt8 := 1

/-- No module is on. -/
def allOff : ModuleTable := ⟨fun _ => false⟩

/-- Reads the table from flash bytes. -/
def ofBytes (raw : List UInt8) : ModuleTable := ⟨fun m => raw[m.place]? == some onByte⟩

/-- The table with one module switched. -/
def set (t : ModuleTable) (m : Module) (on : Bool) : ModuleTable :=
  ⟨fun k => if k = m then on else t.isOn k⟩

end ModuleTable

/-- Starts vision with the snapshot of index `i` if its module is on: the snapshot takes a listener
slot and catches up with the settings, and then `spawn` runs on the hub.  If the module is off
nothing is touched and the result is `none`. -/
def Hub.activate {α : Type} (h : Hub) (t : ModuleTable) (i : Nat) (spawn : Hub → α) :
    Except Refusal (Option α) × Hub × List Note :=
  if t.isOn .vision then
    match h.connect (.published i) with
    | .error e => (.error e, h, [])
    | .ok h =>
      let (h, notes) := h.tell (.published i)
      (.ok (some (spawn h)), h, notes ++ [.visionEnabled])
  else (.ok none, h, [.visionDisabled])

end OnboardVision
