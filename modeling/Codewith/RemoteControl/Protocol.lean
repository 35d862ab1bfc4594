import Codewith.Lib.Text

/-!
# Envelopes of remote clients

What remote clients and the server send over the websocket of the remote control.
-/

namespace Codewith.RemoteControl

open Lib

abbrev ClientId := Text

abbrev StreamId := Text

/-- A request with its method, or a message of another kind; both with the rest of their
content. -/
inductive JSONRPCMessage
  | request (method content : Text)
  | other (content : Text)
  deriving DecidableEq, Repr

inductive ClientEvent
  | clientMessage (message : JSONRPCMessage)
  | clientMessageChunk (segmentId segmentCount messageSizeBytes : Nat) (messageChunkBase64 : Text)
  | ack (segmentId : Option Nat)
  | ping
  | clientClosed
  deriving DecidableEq, Repr

structure ClientEnvelope where
  event : ClientEvent
  clientId : ClientId
  streamId : Option StreamId
  seqId : Option Nat
  cursor : Option Text := none
  deriving DecidableEq, Repr

/-- A message of the server with its content. -/
structure OutgoingMessage where
  content : Text
  deriving DecidableEq, Repr

inductive PongStatus
  | active
  | unknown
  deriving DecidableEq, Repr

inductive ServerEvent
  | serverMessage (message : OutgoingMessage)
  | serverMessageChunk (segmentId segmentCount messageSizeBytes : Nat) (messageChunkBase64 : Text)
  | pong (status : PongStatus)
  deriving DecidableEq, Repr

def ServerEvent.segmentId : ServerEvent → Option Nat
  | .serverMessageChunk segmentId _ _ _ => some segmentId
  | .serverMessage _ | .pong _ => none

structure ServerEnvelope where
  event : ServerEvent
  clientId : ClientId
  streamId : StreamId
  seqId : Nat
  deriving DecidableEq, Repr

def remoteControlMessageStartsConnection : JSONRPCMessage → Bool
  | .request method _ => method = "initialize".toList
  | .other _ => false

end Codewith.RemoteControl
