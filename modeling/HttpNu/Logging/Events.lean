import HttpNu.Value

/-! The events that the log handlers receive. -/

namespace HttpNu.Logging

open Text

abbrev Scru128Id := Str

structure RequestData where
  proto : Str
  method : Str
  remoteIp : Option Str
  remotePort : Option UInt16
  trustedIp : Option Str
  headers : List (Str × Str)
  uri : Str
  path : Str
  query : List (Str × Str)

structure StartupOptions where
  watch : Bool
  tls : Option Str
  store : Option Str
  topic : Option Str
  expose : Option Str
  services : Bool
  datastar : Bool

inductive LogEvent where
  | request (requestId : Scru128Id) (request : RequestData)
  | response (requestId : Scru128Id) (status : UInt16) (headers : List (Str × Str)) (latencyMs : Nat)
  | complete (requestId : Scru128Id) (bytes durationMs : Nat)
  | started (address : Str) (startupMs : Nat) (options : StartupOptions)
  | reloaded
  | error (error : Str)
  | print (message : Str)
  | stopping (inflight : Nat)
  | stopped
  | stopTimedOut
  | shutdown

/-- What the build and the process decide. -/
structure Build where
  version : Str
  nuVersion : Str
  xsVersion : Str
  crossStream : Bool
  pid : Nat

def Build.bare : Build := ⟨"0.0.0".toList, "0.0.0".toList, "0.0.0".toList, false, 1⟩

def datastarVersion : Str := "1.0.1".toList

end HttpNu.Logging
