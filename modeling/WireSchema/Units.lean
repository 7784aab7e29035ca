import WireSchema.Text

/-!
Units of measurement a numeric field may be tagged with, and the spellings they are read from:
short symbols, singular and plural names, both spellings of metre, and speeds as quotients.
-/

namespace WireSchema

inductive Units where
  | unknown
  | nanoseconds
  | microseconds
  | milliseconds
  | seconds
  | minutes
  | hours
  | days
  | weeks
  | nanometers
  | micrometers
  | millimeters
  | centimeters
  | meters
  | kilometers
  | nanometersPerSecond
  | micrometersPerSecond
  | millimetersPerSecond
  | centimetersPerSecond
  | metersPerSecond
  | kilometersPerSecond
  | kilometersPerHour
  | hertz
  | kilohertz
  | megahertz
  | gigahertz
  | degrees
  | radians
  | nanoamps
  | microamps
  | milliamps
  | amps
  | kiloamps
  | nanovolts
  | microvolts
  | millivolts
  | volts
  | kilovolts
  | bytes
  | kilobytes
  | megabytes
  | gigabytes
  | terabytes
  deriving DecidableEq, Inhabited

namespace Units

def counted (name : String) : List String :=
  [name, name ++ "s"]

def metric (stem : String) : List String :=
  counted (stem ++ "meter") ++ counted (stem ++ "metre")

/-- A speed by its symbol, or by a length over a unit of time. The symbol is always per second. -/
def speed (symbol stem time : String) : List String :=
  [symbol ++ "/s", symbol ++ "ps"] ++ (metric stem).map (· ++ "/" ++ time)

/-- Every spelling with its unit, in order of precedence. -/
def spellings : List (List String × Units) :=
  [ ([""], .unknown),
    ("ns" :: counted "nanosec" ++ counted "nanosecond", .nanoseconds),
    ("us" :: counted "microsec" ++ counted "microsecond", .microseconds),
    ("ms" :: counted "millisec" ++ counted "millisecond", .milliseconds),
    ("s" :: counted "sec" ++ counted "second", .seconds),
    (counted "min" ++ counted "minute", .minutes),
    ("h" :: counted "hour", .hours),
    ("d" :: counted "day", .days),
    ("w" :: counted "week", .weeks),
    ("nm" :: metric "nano", .nanometers),
    ("um" :: metric "micro", .micrometers),
    ("mm" :: metric "milli", .millimeters),
    ("cm" :: metric "centi", .centimeters),
    ("m" :: metric "", .meters),
    ("km" :: metric "kilo", .kilometers),
    (speed "nm" "nano" "second", .nanometersPerSecond),
    (speed "um" "micro" "second", .micrometersPerSecond),
    (speed "mm" "milli" "second", .millimetersPerSecond),
    (speed "cm" "centi" "second", .centimetersPerSecond),
    (speed "m" "" "second", .metersPerSecond),
    ("kps" :: speed "km" "kilo" "second", .kilometersPerSecond),
    ("km/h" :: "kmph" :: "kph" :: speed "km" "kilo" "hour", .kilometersPerHour),
    (["hz", "hertz"], .hertz),
    (["khz", "kilohertz"], .kilohertz),
    (["mhz", "megahertz"], .megahertz),
    (["ghz", "gigahertz"], .gigahertz),
    ("deg" :: counted "degree", .degrees),
    ("rad" :: counted "radian", .radians),
    ("na" :: counted "nanoamp" ++ counted "nanoampere", .nanoamps),
    ("ua" :: counted "microamp" ++ counted "microampere", .microamps),
    ("ma" :: counted "milliamp" ++ counted "milliampere", .milliamps),
    ("a" :: counted "amp" ++ counted "ampere", .amps),
    ("ka" :: counted "kiloamp" ++ counted "kiloampere", .kiloamps),
    ("nv" :: counted "nanovolt", .nanovolts),
    ("uv" :: counted "microvolt", .microvolts),
    ("mv" :: counted "millivolt", .millivolts),
    ("v" :: counted "volt", .volts),
    ("kv" :: counted "kilovolt", .kilovolts),
    ("b" :: counted "byte", .bytes),
    ("kb" :: counted "kilobyte", .kilobytes),
    ("mb" :: counted "megabyte", .megabytes),
    ("gb" :: counted "gigabyte", .gigabytes),
    ("tb" :: counted "terabyte", .terabytes) ]

def ofText? (s : String) : Option Units :=
  let name := Text.lower (Text.trim s)
  (spellings.find? fun entry => entry.1.contains name).map (·.2)

end Units

end WireSchema
