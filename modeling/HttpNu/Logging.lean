import HttpNu.Http
import HttpNu.Request.Address

/-! Access events, the guard that completes a request, and the body that counts its bytes. -/

namespace HttpNu

open Text Http Request

structure Uri where
  text : Str
  authority : Option Str
  path : Str
  query : Option Str
  deriving DecidableEq

/-- The request as the handler closure and the log see it. -/
structure RequestParts where
  proto : Str
  method : Str
  authority : Option Str
  remoteIp : Option IpAddr
  remotePort : Option UInt16
  trustedIp : Option IpAddr
  headers : HeaderMap
  uri : Uri
  path : Str
  query : List (Str × Str)

namespace Logging

/-- The access events; the id of a request is the one its guard was made with. -/
inductive Event where
  | request (requestId : Nat) (request : RequestParts)
  | response (requestId : Nat) (status : UInt16) (headers : HeaderMap)
  | complete (requestId bytes : Nat)

structure RequestGuard where
  requestId : Nat
  bytesSent : Nat

def RequestGuard.new (requestId : Nat) : RequestGuard := ⟨requestId, 0⟩

def RequestGuard.drop (guard : RequestGuard) : List Event := [.complete guard.requestId guard.bytesSent]

inductive Frame where
  | data (bytes : Bytes)
  | trailers

inductive FramePoll where
  | frame (f : Frame)
  | error
  | done
  | pending

def Frame.dataLen : Frame → Nat
  | .data bytes => bytes.length
  | .trailers => 0

def FramePoll.dataLen : FramePoll → Nat
  | .frame f => f.dataLen
  | _ => 0

/-- `LoggingBody::poll_frame`: what the inner body returns goes through, its data counted. -/
def RequestGuard.poll (guard : RequestGuard) (polled : FramePoll) : RequestGuard :=
  match polled with
  | .frame (.data bytes) => { guard with bytesSent := guard.bytesSent + bytes.length }
  | _ => guard

end Logging

end HttpNu
