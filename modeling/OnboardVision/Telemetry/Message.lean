import OnboardVision.Single.Trig
import OnboardVision.Telemetry.Basic

/-!
# CRSF messages

The telemetry messages of the flight controller.  `Message.decode` reads the payload of a frame by
its type; numbers are big endian.  A payload of the wrong size, or a type that is not known, is no
message.
-/

namespace OnboardVision

/-- A satellite position. -/
structure Fix where
  /-- Latitude in units of `10⁻⁷` degrees. -/
  lat : Int32
  /-- Longitude in units of `10⁻⁷` degrees. -/
  lon : Int32
  /-- Ground speed in metres per second. -/
  speed : Single
  /-- Course over ground in degrees. -/
  course : Single
  /-- Altitude in metres. -/
  altitude : Single
  /-- How many satellites the fix rests on. -/
  satellites : UInt8
  deriving DecidableEq, Repr

/-- A barometer reading. -/
structure Vario where
  /-- Altitude in metres. -/
  altitude : Single
  /-- Climb rate in metres per second. -/
  climb : Single
  deriving DecidableEq, Repr

/-- A telemetry message. -/
inductive Message where
  /-- The attitude of the vehicle. -/
  | attitude (a : Attitude)
  /-- A satellite position. -/
  | fix (f : Fix)
  /-- A barometer reading. -/
  | vario (v : Vario)
  deriving DecidableEq, Repr

namespace Message

/-- The frame type of attitudes. -/
def attitudeType : UInt8 := 0x1E

/-- The frame type of satellite positions. -/
def fixType : UInt8 := 0x02

/-- The frame type of barometer readings. -/
def varioType : UInt8 := 0x09

/-- Two bytes as an unsigned number. -/
def word (hi lo : UInt8) : Nat := 256 * hi.toNat + lo.toNat

/-- Two bytes as a signed number. -/
def signedWord (hi lo : UInt8) : Int := Int.bmod (word hi lo) 0x10000

/-- Four bytes as a signed number. -/
def long (a b c d : UInt8) : Int32 := Int32.ofInt (0x10000 * word a b + word c d)

/-- An angle in units of 100 microradians. -/
def angle (raw : Int) : Single := (Single.ofInt raw / 10000).toDegrees

/-- The altitude of a barometer reading: decimetres above -1000 m, or, with the top bit set, metres
in the other bits. -/
def packedAltitude (raw : Nat) : Single :=
  if raw < 0x8000 then (Single.ofNat raw - 10000) / 10 else Single.ofNat (raw - 0x8000)

/-- Reads an attitude: pitch, roll and yaw. -/
def decodeAttitude : List UInt8 → Option Message
  | [p1, p0, r1, r0, y1, y0] =>
    some (.attitude
      { roll := angle (signedWord r1 r0)
        pitch := angle (signedWord p1 p0)
        yaw := angle (signedWord y1 y0) })
  | _ => none

/-- Reads a satellite position: speed in units of 0.1 km/h, course in hundredths of a degree,
altitude in metres above -1000 m. -/
def decodeFix : List UInt8 → Option Message
  | [a3, a2, a1, a0, o3, o2, o1, o0, s1, s0, c1, c0, h1, h0, n] =>
    some (.fix
      { lat := long a3 a2 a1 a0
        lon := long o3 o2 o1 o0
        speed := Single.ofNat (word s1 s0) / 36
        course := Single.ofNat (word c1 c0) / 100
        altitude := Single.ofNat (word h1 h0) - 1000
        satellites := n })
  | _ => none

/-- Reads a barometer reading: the packed altitude, and the climb rate in cm/s. -/
def decodeVario : List UInt8 → Option Message
  | [a1, a0, c1, c0] =>
    some (.vario
      { altitude := packedAltitude (word a1 a0)
        climb := Single.ofInt (signedWord c1 c0) / 100 })
  | _ => none

/-- Reads the payload of a frame of the given type. -/
def decode (type : UInt8) (payload : List UInt8) : Option Message :=
  if type = attitudeType then decodeAttitude payload
  else if type = fixType then decodeFix payload
  else if type = varioType then decodeVario payload
  else none

end Message

end OnboardVision
