import Mathlib.Data.List.AList
import Codewith.Lib.Transaction
import Codewith.RemoteControl.Protocol

/-!
# Connections of remote clients

`ClientTracker` keeps one connection for each client and stream.  A connection is opened
by an `initialize` message, together with a task that forwards what is sent to the client.
When the task ends, its client and stream are reported, and the connection that is
registered for them is closed.

A task is not reported by its connection.  The task of a connection that was replaced ends
as well, and may be reported after the new connection is registered, which is then closed
in its place.
-/

namespace Codewith.RemoteControl

open Lib

abbrev ClientKey := ClientId × StreamId

structure ClientState where
  connectionId : Nat
  lastActivityAt : Nat
  lastInboundSeqId : Option Nat
  deriving DecidableEq, Repr

inductive TransportEvent
  | connectionOpened (connectionId : Nat)
  | connectionClosed (connectionId : Nat)
  | incomingMessage (connectionId : Nat) (message : JSONRPCMessage)
  deriving DecidableEq, Repr

/-- The task for one connection.  It returns its client and stream only. -/
structure OutboundTask where
  key : ClientKey
  connectionId : Nat
  deriving DecidableEq, Repr

structure ClientTracker where
  clients : AList fun _ : ClientKey => ClientState := ∅
  legacyStreamIds : AList fun _ : ClientId => StreamId := ∅
  /-- All tasks that were spawned. -/
  spawned : List OutboundTask := []
  /-- The tasks of the join set that still run. -/
  running : List OutboundTask := []
  /-- The tasks of the join set that have ended. -/
  finished : List OutboundTask := []
  /-- The tasks that were reported and whose key is still to be passed to `close_client`. -/
  reported : List OutboundTask := []
  /-- The connections whose task has ended. -/
  ended : List Nat := []
  nextConnectionId : Nat := 0
  shutDown : Bool := false
  events : List TransportEvent := []

/-- The error of a command that could not forward its event. -/
inductive Stopped
  | stopped
  deriving DecidableEq, Repr

abbrev Command (A : Type) := Exec ClientTracker Stopped A

/-- `10 * 60` seconds, in milliseconds. -/
def remoteControlClientIdleTimeout : Nat := 10 * 60 * 1000

def ClientState.isAlive (client : ClientState) (now : Nat) : Bool :=
  now - client.lastActivityAt < remoteControlClientIdleTimeout

/-- What a message meets: the clock, the stream id that is drawn if one is needed, and which
events the app server receives. -/
structure Surroundings where
  now : Nat
  randomStreamId : StreamId
  closedSent : Bool := true
  openedSent : Bool := true
  incomingSent : Bool := true
  deriving DecidableEq, Repr

def emit (event : TransportEvent) (t : ClientTracker) : ClientTracker :=
  { t with events := t.events ++ [event] }

/-- Forward an event, if the app server receives it in time. -/
def sendTransportEvent (event : TransportEvent) (sent : Bool) : Command Unit :=
  if sent then Exec.modify (emit event) else Exec.fail .stopped

def removeClient (key : ClientKey) (t : ClientTracker) : ClientTracker :=
  { t with
    clients := t.clients.erase key
    legacyStreamIds :=
      if t.legacyStreamIds.lookup key.1 = some key.2 then t.legacyStreamIds.erase key.1
      else t.legacyStreamIds }

/-- The event is handed to a task of its own, and is lost only with its receiver. -/
def closeClient (key : ClientKey) (sent : Bool) : Command Unit := do
  match (← Exec.gets fun t => t.clients.lookup key) with
  | none => pure ()
  | some client =>
      Exec.modify (removeClient key)
      Exec.modify (emit (.connectionClosed client.connectionId))
      if sent then pure () else Exec.fail .stopped

def ClientEnvelope.isInitialize (envelope : ClientEnvelope) : Bool :=
  match envelope.event with
  | .clientMessage message => remoteControlMessageStartsConnection message
  | _ => false

/-- The stream of an envelope, which older clients leave out. -/
def streamIdOf (envelope : ClientEnvelope) (surroundings : Surroundings) (t : ClientTracker) :
    StreamId :=
  match envelope.streamId with
  | some streamId => streamId
  | none =>
      (t.legacyStreamIds.lookup envelope.clientId).getD
        (if envelope.isInitialize ∨ envelope.event = .ping then surroundings.randomStreamId else [])

def keyOf (envelope : ClientEnvelope) (surroundings : Surroundings) (t : ClientTracker) :
    ClientKey :=
  (envelope.clientId, streamIdOf envelope surroundings t)

def updateClient (key : ClientKey) (f : ClientState → ClientState) (t : ClientTracker) :
    ClientTracker :=
  match t.clients.lookup key with
  | some client => { t with clients := t.clients.insert key (f client) }
  | none => t

def recordInboundMessageDelivery (key : ClientKey) (seqId : Option Nat) (t : ClientTracker) :
    ClientTracker :=
  match seqId with
  | some seqId => updateClient key (fun client => { client with lastInboundSeqId := some seqId }) t
  | none => t

/-- Register a connection and spawn its task. -/
def openClient (key : ClientKey) (connectionId : Nat) (isLegacy : Bool) (now : Nat)
    (t : ClientTracker) : ClientTracker :=
  { t with
    clients := t.clients.insert key ⟨connectionId, now, none⟩
    legacyStreamIds :=
      if isLegacy then t.legacyStreamIds.insert key.1 key.2 else t.legacyStreamIds
    spawned := t.spawned ++ [⟨key, connectionId⟩]
    running := t.running ++ [⟨key, connectionId⟩] }

/-- The connection of an `initialize` message for a client that is not registered. -/
def startConnection (key : ClientKey) (envelope : ClientEnvelope) (message : JSONRPCMessage)
    (surroundings : Surroundings) : Command Unit := do
  let connectionId ← Exec.gets fun t => t.nextConnectionId
  Exec.modify fun t => { t with nextConnectionId := t.nextConnectionId + 1 }
  sendTransportEvent (.connectionOpened connectionId) surroundings.openedSent
  Exec.modify (openClient key connectionId envelope.streamId.isNone surroundings.now)
  if surroundings.incomingSent then
    Exec.modify (emit (.incomingMessage connectionId message))
    Exec.modify fun t =>
      if envelope.streamId.isNone then t
      else recordInboundMessageDelivery key envelope.seqId t
  else
    Exec.modify (removeClient key)
    Exec.modify (emit (.connectionClosed connectionId))
    Exec.fail .stopped

/-- A message for a client that is registered. -/
def forwardMessage (key : ClientKey) (envelope : ClientEnvelope) (message : JSONRPCMessage)
    (client : ClientState) (surroundings : Surroundings) : Command Unit := do
  Exec.modify (updateClient key fun client => { client with lastActivityAt := surroundings.now })
  sendTransportEvent (.incomingMessage client.connectionId message) surroundings.incomingSent
  Exec.modify (recordInboundMessageDelivery key envelope.seqId)

def handleClientMessage (key : ClientKey) (envelope : ClientEnvelope) (message : JSONRPCMessage)
    (surroundings : Surroundings) : Command Unit := do
  if envelope.isInitialize then
    closeClient key surroundings.closedSent
    startConnection key envelope message surroundings
  else
    match (← Exec.gets fun t => t.clients.lookup key) with
    | none => pure ()
    | some client =>
        let isSeen := envelope.seqId.any fun seqId => client.lastInboundSeqId.any (seqId ≤ ·)
        if isSeen then pure () else forwardMessage key envelope message client surroundings

def handleEvent (key : ClientKey) (envelope : ClientEnvelope) (surroundings : Surroundings) :
    Command Unit :=
  match envelope.event with
  | .clientMessage message => handleClientMessage key envelope message surroundings
  | .ping =>
      Exec.modify (updateClient key fun client =>
        { client with lastActivityAt := surroundings.now })
  | .clientClosed => closeClient key surroundings.closedSent
  | .clientMessageChunk .. | .ack _ => pure ()

/-- An older client that starts over gives up its stream before it gets it again. -/
def releaseLegacyStream (envelope : ClientEnvelope) (t : ClientTracker) : ClientTracker :=
  if envelope.streamId.isNone ∧ envelope.isInitialize then
    { t with legacyStreamIds := t.legacyStreamIds.erase envelope.clientId }
  else t

def handleMessage (envelope : ClientEnvelope) (surroundings : Surroundings) : Command Unit := do
  let key ← Exec.gets (keyOf envelope surroundings)
  Exec.modify (releaseLegacyStream envelope)
  if key.2 = [] then pure () else handleEvent key envelope surroundings

/-- The sweep goes on as long as the events are received. -/
def closeExpiredClients (now : Nat) (stopsAt : Option Nat) : Command Unit := do
  let expired ← Exec.gets fun t => (t.clients.entries.filter fun entry =>
    !entry.2.isAlive now).map Sigma.fst
  Exec.forEach (fun (key, index) => closeClient key (stopsAt ≠ some index)) expired.zipIdx

/-- Shutting down closes all clients, and waits for all tasks without reporting them. -/
def shutdown : Command Unit := do
  let keys ← Exec.gets fun t => t.clients.keys
  Exec.modify fun t => { t with shutDown := true }
  Exec.forEach (fun key => closeClient key true) keys
  Exec.modify fun t =>
    { t with
      running := []
      finished := []
      ended := t.ended ++ t.running.map (·.connectionId) }

/-! ## The operations -/

inductive TrackerOp
  | message (envelope : ClientEnvelope) (surroundings : Surroundings)
  | idleSweep (now : Nat) (stopsAt : Option Nat)
  /-- A task of the join set ends. -/
  | taskEnds (index : Nat)
  /-- `bookkeep_join_set` reports a task that has ended. -/
  | report (index : Nat)
  /-- The key of a task that was reported is passed to `close_client`. -/
  | closeReported (index : Nat) (closedSent : Bool)
  | shutdown
  deriving DecidableEq, Repr

def TrackerOp.run : TrackerOp → Command Unit
  | .message envelope surroundings => handleMessage envelope surroundings
  | .idleSweep now stopsAt => closeExpiredClients now stopsAt
  | .taskEnds index => Exec.modify fun t =>
      match t.running[index]? with
      | some task =>
          { t with
            running := t.running.eraseIdx index
            finished := t.finished ++ [task]
            ended := t.ended ++ [task.connectionId] }
      | none => t
  | .report index => Exec.modify fun t =>
      match t.finished[index]? with
      | some task =>
          { t with
            finished := t.finished.eraseIdx index
            reported := t.reported ++ [task] }
      | none => t
  | .closeReported index closedSent => do
      match (← Exec.gets fun t => t.reported[index]?) with
      | some task =>
          Exec.modify fun t => { t with reported := t.reported.eraseIdx index }
          closeClient task.key closedSent
      | none => pure ()
  | .shutdown => RemoteControl.shutdown

def TrackerOp.step (op : TrackerOp) (t : ClientTracker) : ClientTracker := (op.run t).2

end Codewith.RemoteControl
