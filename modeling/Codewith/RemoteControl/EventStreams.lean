import Codewith.RemoteControl.Closing

/-!
# What the app server sees of a connection

The events of one connection form a stream: it is opened, its `initialize` message comes
first, other messages follow, and it is closed at most once.  Messages that carry a sequence
number come in its order.  A message whose forwarding has failed can be sent again, as long as
no message with a larger number was forwarded in the meantime.
-/

namespace Codewith.RemoteControl

open Lib

def TransportEvent.connectionId : TransportEvent → Nat
  | .connectionOpened connectionId => connectionId
  | .connectionClosed connectionId => connectionId
  | .incomingMessage connectionId _ => connectionId

/-- An event with the envelope that was being handled, if there was one. -/
structure LoggedEvent where
  event : TransportEvent
  envelope : Option ClientEnvelope
  deriving DecidableEq, Repr

def TrackerOp.envelope : TrackerOp → Option ClientEnvelope
  | .message envelope _ => some envelope
  | _ => none

/-- The events that a step emits. -/
def TrackerOp.emitted (op : TrackerOp) (t : ClientTracker) : List TransportEvent :=
  (op.step t).events.drop t.events.length

/-- The events of a run, in their order. -/
def eventLog : List TrackerOp → ClientTracker → List LoggedEvent
  | [], _ => []
  | op :: ops, t =>
      (op.emitted t).map (fun event => ⟨event, op.envelope⟩) ++ eventLog ops (op.step t)

def streamOf (connectionId : Nat) (log : List LoggedEvent) : List LoggedEvent :=
  log.filter fun logged => logged.event.connectionId = connectionId

/-! ### Streams -/

/-- The event forwards the message of its envelope. -/
def LoggedEvent.Forwards (connectionId : Nat) (logged : LoggedEvent) : Prop :=
  ∃ envelope message, logged.envelope = some envelope ∧
    envelope.event = .clientMessage message ∧ logged.event = .incomingMessage connectionId message

def LoggedEvent.isInitialize (logged : LoggedEvent) : Bool :=
  logged.envelope.any ClientEnvelope.isInitialize

/-- The sequence number of a message that was forwarded. -/
def LoggedEvent.seqId (logged : LoggedEvent) : Option Nat :=
  match logged.event with
  | .incomingMessage _ _ => logged.envelope.bind ClientEnvelope.seqId
  | _ => none

def LoggedEvent.isLegacy (logged : LoggedEvent) : Bool :=
  logged.envelope.any fun envelope => envelope.streamId.isNone

/-- The sequence numbers by which messages are told apart.  That of an older client's
`initialize` message is not one of them. -/
def seqIds (messages : List LoggedEvent) : List Nat :=
  if messages.head?.any LoggedEvent.isLegacy then messages.tail.filterMap LoggedEvent.seqId
  else messages.filterMap LoggedEvent.seqId

/-- Messages as a connection receives them. -/
structure IsConversation (connectionId : Nat) (messages : List LoggedEvent) : Prop where
  forwards : ∀ logged ∈ messages, logged.Forwards connectionId
  starts : ∀ first ∈ messages.head?, first.isInitialize = true
  increasing : (seqIds messages).Pairwise (· < ·)

/-- The whole stream of a connection. -/
def WellFormedStream (connectionId : Nat) (stream : List LoggedEvent) : Prop :=
  stream = [] ∨ ∃ opened messages closed, stream = opened :: messages ++ closed ∧
    opened.event = .connectionOpened connectionId ∧ IsConversation connectionId messages ∧
      (closed = [] ∨ ∃ last, closed = [last] ∧ last.event = .connectionClosed connectionId)

/-! ### What a step can do to the connections -/

/-- The registered connections are the same, with the same last number. -/
def SameClients (t t' : ClientTracker) : Prop :=
  ∀ key, (t'.clients.lookup key).map
    (fun client => (client.connectionId, client.lastInboundSeqId)) =
    (t.clients.lookup key).map fun client => (client.connectionId, client.lastInboundSeqId)

/-- One connection is registered or changed. -/
def SetsClient (t t' : ClientTracker) (key : ClientKey) (client : ClientState) : Prop :=
  ∀ other, t'.clients.lookup other = if other = key then some client else t.clients.lookup other

/-- One change of the connections and the events that come with it. -/
inductive Change (handled : Option ClientEnvelope) (t t' : ClientTracker) :
    List TransportEvent → Prop
  | quiet (hclients : SameClients t t') (hnext : t.nextConnectionId ≤ t'.nextConnectionId) :
      Change handled t t' []
  | closed (key : ClientKey) (client : ClientState) (hclient : t.clients.lookup key = some client)
      (hclients : t'.clients = t.clients.erase key)
      (hnext : t'.nextConnectionId = t.nextConnectionId) :
      Change handled t t' [.connectionClosed client.connectionId]
  | opened (key : ClientKey) (client : ClientState) (envelope : ClientEnvelope)
      (message : JSONRPCMessage) (hhandled : handled = some envelope)
      (hevent : envelope.event = .clientMessage message) (hstarts : envelope.isInitialize = true)
      (hid : client.connectionId = t.nextConnectionId)
      (hlast : client.lastInboundSeqId = if envelope.streamId.isNone then none else envelope.seqId)
      (hfree : t.clients.lookup key = none) (hclients : SetsClient t t' key client)
      (hnext : t'.nextConnectionId = t.nextConnectionId + 1) :
      Change handled t t' [.connectionOpened t.nextConnectionId,
        .incomingMessage t.nextConnectionId message]
  | refused (hclients : SameClients t t')
      (hnext : t'.nextConnectionId = t.nextConnectionId + 1) :
      Change handled t t' [.connectionOpened t.nextConnectionId,
        .connectionClosed t.nextConnectionId]
  | forwarded (key : ClientKey) (client client' : ClientState) (envelope : ClientEnvelope)
      (message : JSONRPCMessage) (hhandled : handled = some envelope)
      (hevent : envelope.event = .clientMessage message)
      (hclient : t.clients.lookup key = some client)
      (hnew : ∀ seqId ∈ envelope.seqId, ∀ last ∈ client.lastInboundSeqId, last < seqId)
      (hid : client'.connectionId = client.connectionId)
      (hlast : client'.lastInboundSeqId = envelope.seqId.or client.lastInboundSeqId)
      (hclients : SetsClient t t' key client')
      (hnext : t'.nextConnectionId = t.nextConnectionId) :
      Change handled t t' [.incomingMessage client.connectionId message]

/-- Changes one after the other. -/
inductive Changes (handled : Option ClientEnvelope) :
    ClientTracker → ClientTracker → List TransportEvent → Prop
  | done (t : ClientTracker) : Changes handled t t []
  | next {t t' t'' : ClientTracker} {emitted more : List TransportEvent}
      (hchange : Change handled t t' emitted) (hevents : t'.events = t.events ++ emitted)
      (hmore : Changes handled t' t'' more) : Changes handled t t'' (emitted ++ more)

namespace Changes

variable {handled : Option ClientEnvelope} {t t' t'' : ClientTracker}
  {emitted more : List TransportEvent}

theorem single (hchange : Change handled t t' emitted) (hevents : t'.events = t.events ++ emitted) :
    Changes handled t t' emitted := by
  have h := Changes.next hchange hevents (.done t')
  rwa [List.append_nil] at h

theorem trans (h : Changes handled t t' emitted) (h' : Changes handled t' t'' more) :
    Changes handled t t'' (emitted ++ more) := by
  induction h with
  | done t => exact h'
  | next hchange hevents _ ih =>
      rw [List.append_assoc]
      exact .next hchange hevents (ih h')

theorem events_eq (h : Changes handled t t' emitted) : t'.events = t.events ++ emitted := by
  induction h with
  | done t => rw [List.append_nil]
  | next hchange hevents _ ih => rw [ih, hevents, List.append_assoc]

theorem quiet (hclients : SameClients t t') (hnext : t.nextConnectionId ≤ t'.nextConnectionId)
    (hevents : t'.events = t.events) : Changes handled t t' [] :=
  single (.quiet hclients hnext) (by rw [hevents, List.append_nil])

end Changes

/-- The tracker is changed in such steps. -/
def ChangesTo (handled : Option ClientEnvelope) (t t' : ClientTracker) : Prop :=
  ∃ emitted, Changes handled t t' emitted

theorem ChangesTo.refl (handled : Option ClientEnvelope) (t : ClientTracker) :
    ChangesTo handled t t :=
  ⟨[], .done t⟩

theorem ChangesTo.trans {handled : Option ClientEnvelope} {t t' t'' : ClientTracker}
    (h : ChangesTo handled t t') (h' : ChangesTo handled t' t'') : ChangesTo handled t t'' := by
  obtain ⟨emitted, hemitted⟩ := h
  obtain ⟨more, hmore⟩ := h'
  exact ⟨emitted ++ more, hemitted.trans hmore⟩

section Steps

variable {handled : Option ClientEnvelope} {t : ClientTracker}

theorem sameClients_of_eq {t' : ClientTracker} (h : t'.clients = t.clients) : SameClients t t' := by
  intro key
  rw [h]

theorem changesTo_withoutClient (key : ClientKey) :
    ChangesTo handled t (t.withoutClient key) := by
  rcases hclient : t.clients.lookup key with _ | client
  · have hsame : t.withoutClient key = t := by simp [ClientTracker.withoutClient, hclient]
    rw [hsame]
    exact .refl handled t
  · have hclosed : t.withoutClient key =
        emit (.connectionClosed client.connectionId) (removeClient key t) := by
      simp [ClientTracker.withoutClient, hclient]
    rw [hclosed]
    exact ⟨_, .single (.closed key client hclient rfl rfl) rfl⟩

theorem changesTo_closeClient (key : ClientKey) (sent : Bool) :
    ChangesTo handled t (closeClient key sent t).2 := by
  rw [closeClient_state]
  exact changesTo_withoutClient key

theorem lookup_withoutClient_self (key : ClientKey) :
    (t.withoutClient key).clients.lookup key = none := by
  rcases hclient : (t.withoutClient key).clients.lookup key with _ | client
  · rfl
  · exact absurd rfl (ClientTracker.lookup_withoutClient hclient).1

theorem SetsClient.insert {t' : ClientTracker} {key : ClientKey} {client : ClientState}
    (h : t'.clients = t.clients.insert key client) : SetsClient t t' key client := by
  intro other
  rw [h]
  split
  · rename_i hkey
    rw [hkey, AList.lookup_insert]
  · rename_i hkey
    rw [AList.lookup_insert_ne hkey]

theorem SetsClient.trans {t' t'' : ClientTracker} {key : ClientKey} {client client' : ClientState}
    (h : SetsClient t t' key client) (h' : SetsClient t' t'' key client') :
    SetsClient t t'' key client' := by
  intro other
  rw [h' other, h other]
  split
  · rfl
  · rfl

theorem SetsClient.refl {key : ClientKey} {client : ClientState}
    (h : t.clients.lookup key = some client) : SetsClient t t key client := by
  intro other
  split
  · rename_i hkey
    rw [hkey, h]
  · rfl

theorem SetsClient.lookup {t' : ClientTracker} {key : ClientKey} {client : ClientState}
    (h : SetsClient t t' key client) : t'.clients.lookup key = some client := by
  rw [h key, if_pos rfl]

theorem setsClient_updateClient {key : ClientKey} {client : ClientState}
    (hclient : t.clients.lookup key = some client) (f : ClientState → ClientState) :
    SetsClient t (updateClient key f t) key (f client) := by
  apply SetsClient.insert
  simp [updateClient, hclient]

theorem updateClient_same (key : ClientKey) (f : ClientState → ClientState) (t : ClientTracker) :
    (updateClient key f t).nextConnectionId = t.nextConnectionId ∧
      (updateClient key f t).events = t.events := by
  unfold updateClient
  split
  · exact ⟨rfl, rfl⟩
  · exact ⟨rfl, rfl⟩

theorem setsClient_recordInboundMessageDelivery {key : ClientKey} {client : ClientState}
    (hclient : t.clients.lookup key = some client) (seqId : Option Nat) :
    SetsClient t (recordInboundMessageDelivery key seqId t) key
      { client with lastInboundSeqId := seqId.or client.lastInboundSeqId } := by
  rcases seqId with _ | seqId
  · exact .refl hclient
  · exact setsClient_updateClient hclient _

theorem recordInboundMessageDelivery_same (key : ClientKey) (seqId : Option Nat)
    (t : ClientTracker) :
    (recordInboundMessageDelivery key seqId t).nextConnectionId = t.nextConnectionId ∧
      (recordInboundMessageDelivery key seqId t).events = t.events := by
  rcases seqId with _ | seqId
  · exact ⟨rfl, rfl⟩
  · exact updateClient_same key _ t

theorem setsClient_opened (key : ClientKey) (isLegacy : Bool) (now : Nat) :
    SetsClient t (t.opened key isLegacy now) key ⟨t.nextConnectionId, now, none⟩ :=
  .insert rfl

/-- A connection that is opened gets its first message, or is closed at once. -/
theorem changesTo_startConnection {key : ClientKey} {envelope : ClientEnvelope}
    {message : JSONRPCMessage} (hevent : envelope.event = .clientMessage message)
    (hstarts : envelope.isInitialize = true) (hfree : t.clients.lookup key = none)
    (surroundings : Surroundings) :
    ChangesTo (some envelope) t (startConnection key envelope message surroundings t).2 := by
  have hopened := setsClient_opened (t := t) key envelope.streamId.isNone surroundings.now
  rw [startConnection_state]
  split
  · split
    · cases hlegacy : envelope.streamId.isNone with
      | true =>
          refine ⟨_, .single (.opened key ⟨t.nextConnectionId, surroundings.now, none⟩ envelope
            message rfl hevent hstarts rfl (by simp [hlegacy]) hfree (.insert rfl) rfl) ?_⟩
          simp [emit, ClientTracker.opened, openClient]
      | false =>
          have hsame := recordInboundMessageDelivery_same key envelope.seqId
            (emit (.incomingMessage t.nextConnectionId message)
              (t.opened key false surroundings.now))
          refine ⟨_, .single (.opened key ⟨t.nextConnectionId, surroundings.now, envelope.seqId⟩
            envelope message rfl hevent hstarts rfl (by simp [hlegacy]) hfree ?_ ?_) ?_⟩
          · have hrecord := setsClient_recordInboundMessageDelivery
              (t := emit (.incomingMessage t.nextConnectionId message)
                (t.opened key false surroundings.now))
              (ClientTracker.lookup_opened t key false surroundings.now) envelope.seqId
            rw [Option.or_none] at hrecord
            rw [hlegacy] at hopened
            exact hopened.trans hrecord
          · exact hsame.1
          · rw [if_neg Bool.false_ne_true, hsame.2]
            simp [emit, ClientTracker.opened, openClient]
    · -- The connection was registered for its first message only.
      have hremoved : (t.opened key envelope.streamId.isNone surroundings.now).withoutClient key =
          emit (.connectionClosed t.nextConnectionId) (removeClient key
            (t.opened key envelope.streamId.isNone surroundings.now)) := by
        simp [ClientTracker.withoutClient, ClientTracker.lookup_opened]
      rw [hremoved]
      refine ⟨_, .single (.refused ?_ rfl) ?_⟩
      · intro other
        change (((t.opened key envelope.streamId.isNone surroundings.now).clients.erase key).lookup
          other).map _ = _
        by_cases hkey : other = key
        · rw [hkey, AList.lookup_erase, hfree]
        · rw [AList.lookup_erase_ne hkey, hopened other, if_neg hkey]
      · simp [emit, removeClient, ClientTracker.opened, openClient]
  · exact ⟨[], .quiet (sameClients_of_eq rfl) (Nat.le_succ _) rfl⟩

theorem changesTo_touch (key : ClientKey) (now : Nat) :
    ChangesTo handled t
      (updateClient key (fun client => { client with lastActivityAt := now }) t) := by
  have hsame := updateClient_same key (fun client => { client with lastActivityAt := now }) t
  refine ⟨[], .quiet ?_ hsame.1.ge hsame.2⟩
  intro other
  rcases hclient : t.clients.lookup key with _ | client
  · simp [updateClient, hclient]
  · rw [setsClient_updateClient hclient]
    split
    · rename_i hkey
      rw [hkey, hclient]
      rfl
    · rfl

theorem forwardMessage_state (key : ClientKey) (envelope : ClientEnvelope)
    (message : JSONRPCMessage) (client : ClientState) (surroundings : Surroundings) :
    (forwardMessage key envelope message client surroundings t).2 =
      let touched := updateClient key
        (fun client => { client with lastActivityAt := surroundings.now }) t
      if surroundings.incomingSent then
        recordInboundMessageDelivery key envelope.seqId
          (emit (.incomingMessage client.connectionId message) touched)
      else touched := by
  cases hsent : surroundings.incomingSent with
  | false => simp [forwardMessage, Exec.bind_run, sendTransportEvent, hsent]
  | true => simp [forwardMessage, Exec.bind_run, sendTransportEvent, hsent]

/-- A message for a connection is forwarded with its number, or leaves only its time. -/
theorem changesTo_forwardMessage {key : ClientKey} {envelope : ClientEnvelope}
    {message : JSONRPCMessage} {client : ClientState}
    (hevent : envelope.event = .clientMessage message)
    (hclient : t.clients.lookup key = some client)
    (hnew : ∀ seqId ∈ envelope.seqId, ∀ last ∈ client.lastInboundSeqId, last < seqId)
    (surroundings : Surroundings) :
    ChangesTo (some envelope) t (forwardMessage key envelope message client surroundings t).2 := by
  have htouched := setsClient_updateClient hclient
    fun client => { client with lastActivityAt := surroundings.now }
  have hsame := updateClient_same key
    (fun client => { client with lastActivityAt := surroundings.now }) t
  rw [forwardMessage_state]
  dsimp only
  split
  · generalize updateClient key
      (fun client => { client with lastActivityAt := surroundings.now }) t = touched at *
    have hrecord := setsClient_recordInboundMessageDelivery
      (t := emit (.incomingMessage client.connectionId message) touched) htouched.lookup
      envelope.seqId
    have hrecordSame := recordInboundMessageDelivery_same key envelope.seqId
      (emit (.incomingMessage client.connectionId message) touched)
    refine ⟨_, .single (.forwarded key client _ envelope message rfl hevent hclient hnew ?_ ?_
      (htouched.trans hrecord) ?_) ?_⟩
    · rfl
    · rfl
    · rw [hrecordSame.1]
      exact hsame.1
    · rw [hrecordSame.2]
      change touched.events ++ _ = _
      rw [hsame.2]
  · exact changesTo_touch key surroundings.now

/-- Whether a message was forwarded on the connection before. -/
def ClientState.hasSeen (client : ClientState) (envelope : ClientEnvelope) : Bool :=
  envelope.seqId.any fun seqId => client.lastInboundSeqId.any (seqId ≤ ·)

theorem lt_of_not_hasSeen {client : ClientState} {envelope : ClientEnvelope}
    (h : client.hasSeen envelope = false) :
    ∀ seqId ∈ envelope.seqId, ∀ last ∈ client.lastInboundSeqId, last < seqId := by
  intro seqId hseqId last hlast
  rw [Option.mem_def] at hseqId hlast
  simpa [ClientState.hasSeen, hseqId, hlast] using h

/-- A message that does not open a connection is forwarded unless it was before. -/
theorem handleClientMessage_other {key : ClientKey} {envelope : ClientEnvelope}
    {message : JSONRPCMessage} (hother : envelope.isInitialize = false)
    (surroundings : Surroundings) :
    handleClientMessage key envelope message surroundings t =
      match t.clients.lookup key with
      | none => (.ok (), t)
      | some client =>
          if client.hasSeen envelope then (.ok (), t)
          else forwardMessage key envelope message client surroundings t := by
  unfold handleClientMessage
  rw [if_neg (by rw [hother]; exact Bool.false_ne_true)]
  rcases hclient : t.clients.lookup key with _ | client
  · simp [Exec.bind_run, hclient]
  · by_cases hseen : client.hasSeen envelope = true
    · have hseen' := hseen
      unfold ClientState.hasSeen at hseen'
      simp [Exec.bind_run, hclient, hseen, hseen']
    · have hseen' := hseen
      unfold ClientState.hasSeen at hseen'
      simp [Exec.bind_run, hclient, hseen, hseen']

theorem changesTo_handleClientMessage {key : ClientKey} {envelope : ClientEnvelope}
    {message : JSONRPCMessage} (hevent : envelope.event = .clientMessage message)
    (surroundings : Surroundings) :
    ChangesTo (some envelope) t (handleClientMessage key envelope message surroundings t).2 := by
  cases hstarts : envelope.isInitialize with
  | true =>
      have hrun : handleClientMessage key envelope message surroundings =
          (closeClient key surroundings.closedSent >>= fun _ =>
            startConnection key envelope message surroundings) := by
        simp only [handleClientMessage, hstarts, if_true]
      have hclosed := closeClient_state key surroundings.closedSent t
      rcases hclose : closeClient key surroundings.closedSent t with ⟨_ | u, closed⟩
      · rw [hrun, Exec.bind_run_error hclose]
        rw [hclose] at hclosed
        exact hclosed ▸ changesTo_withoutClient key
      · rw [hrun, Exec.bind_run_ok hclose]
        rw [hclose] at hclosed
        change closed = t.withoutClient key at hclosed
        subst hclosed
        exact (changesTo_withoutClient key).trans
          (changesTo_startConnection hevent hstarts (lookup_withoutClient_self key) surroundings)
  | false =>
      rw [handleClientMessage_other hstarts]
      rcases hclient : t.clients.lookup key with _ | client
      · exact .refl _ t
      · dsimp only
        split
        · exact .refl _ t
        · rename_i hseen
          rw [Bool.not_eq_true] at hseen
          exact changesTo_forwardMessage hevent hclient (lt_of_not_hasSeen hseen) surroundings

theorem changesTo_handleMessage (envelope : ClientEnvelope) (surroundings : Surroundings) :
    ChangesTo (some envelope) t (handleMessage envelope surroundings t).2 := by
  have hrelease : ChangesTo (some envelope) t (releaseLegacyStream envelope t) := by
    unfold releaseLegacyStream
    split
    · exact ⟨[], .quiet (sameClients_of_eq rfl) le_rfl rfl⟩
    · exact .refl _ t
  refine hrelease.trans ?_
  have hrun : handleMessage envelope surroundings t =
      (if (keyOf envelope surroundings t).2 = [] then pure ()
        else handleEvent (keyOf envelope surroundings t) envelope surroundings)
        (releaseLegacyStream envelope t) := by
    simp only [handleMessage, Exec.bind_run, Exec.gets_run, Exec.modify_run]
  rw [hrun, Exec.ite_run]
  split
  · exact .refl _ _
  · unfold handleEvent
    cases hevent : envelope.event with
    | clientMessage message => exact changesTo_handleClientMessage hevent surroundings
    | ping => exact changesTo_touch _ _
    | clientClosed => exact changesTo_closeClient _ _
    | clientMessageChunk segmentId segmentCount messageSizeBytes chunk => exact .refl _ _
    | ack segmentId => exact .refl _ _

theorem changesTo_forEach_closeClient {I : Type} (key : I → ClientKey) (sent : I → Bool)
    (items : List I) :
    ChangesTo handled t (Exec.forEach (fun item => closeClient (key item) (sent item)) items t).2 :=
  Exec.forEach_invariant (C := fun _ _ => True) (fun _ _ hmid _ =>
    ChangesTo.trans hmid (changesTo_closeClient _ _)) (.refl handled t) fun _ _ => trivial

/-- Every step is made of such changes. -/
theorem TrackerOp.changesTo (op : TrackerOp) (t : ClientTracker) :
    ChangesTo op.envelope t (op.step t) := by
  unfold TrackerOp.step
  cases op with
  | message envelope surroundings => exact changesTo_handleMessage envelope surroundings
  | idleSweep now stopsAt =>
      simp only [TrackerOp.run, closeExpiredClients, Exec.bind_run, Exec.gets_run]
      exact changesTo_forEach_closeClient Prod.fst (fun item => decide (stopsAt ≠ some item.2)) _
  | taskEnds index =>
      rw [TrackerOp.run, Exec.modify_run]
      dsimp only
      split
      · exact ⟨[], .quiet (sameClients_of_eq rfl) le_rfl rfl⟩
      · exact .refl _ t
  | report index =>
      rw [TrackerOp.run, Exec.modify_run]
      dsimp only
      split
      · exact ⟨[], .quiet (sameClients_of_eq rfl) le_rfl rfl⟩
      · exact .refl _ t
  | closeReported index closedSent =>
      rcases htask : t.reported[index]? with _ | task
      · have hrun : (TrackerOp.closeReported index closedSent).run t = (.ok (), t) := by
          simp [TrackerOp.run, Exec.bind_run, htask]
        rw [hrun]
        exact .refl _ t
      · have hrun : (TrackerOp.closeReported index closedSent).run t =
            closeClient task.key closedSent
              { t with reported := t.reported.eraseIdx index } := by
          simp [TrackerOp.run, Exec.bind_run, htask]
        rw [hrun]
        refine ChangesTo.trans ?_ (changesTo_closeClient _ _)
        exact ⟨[], .quiet (sameClients_of_eq rfl) le_rfl rfl⟩
  | shutdown =>
      simp only [TrackerOp.run, RemoteControl.shutdown, Exec.bind_run, Exec.gets_run,
        Exec.modify_run]
      have hstart : ChangesTo none t { t with shutDown := true } :=
        ⟨[], .quiet (sameClients_of_eq rfl) le_rfl rfl⟩
      have hclose : ChangesTo none t (Exec.forEach (fun key => closeClient key true)
          t.clients.keys { t with shutDown := true }).2 :=
        hstart.trans (changesTo_forEach_closeClient id (fun _ => true) t.clients.keys)
      rcases hrun : Exec.forEach (fun key => closeClient key true) t.clients.keys
          { t with shutDown := true } with ⟨_ | u, last⟩
      · rw [hrun] at hclose
        exact hclose
      · rw [hrun] at hclose
        exact hclose.trans ⟨[], .quiet (sameClients_of_eq rfl) le_rfl rfl⟩

end Steps

/-! ### The stream of an open connection -/

/-- A connection that is registered was opened and started, and knows its last number. -/
def OpenStream (connectionId : Nat) (last : Option Nat) (stream : List LoggedEvent) : Prop :=
  ∃ opened messages, stream = opened :: messages ∧ opened.event = .connectionOpened connectionId ∧
    messages ≠ [] ∧ IsConversation connectionId messages ∧ last = (seqIds messages).getLast?

theorem seqIds_append {messages : List LoggedEvent} (h : messages ≠ []) (more : List LoggedEvent) :
    seqIds (messages ++ more) = seqIds messages ++ more.filterMap LoggedEvent.seqId := by
  rcases messages with _ | ⟨first, messages⟩
  · exact absurd rfl h
  · unfold seqIds
    by_cases hlegacy : first.isLegacy = true
    · simp [hlegacy]
    · rw [List.filterMap_append]
      simp [hlegacy]

theorem le_getLast_of_mem {l : List Nat} (h : l.Pairwise (· < ·)) {x : Nat} (hx : x ∈ l) :
    ∃ last, l.getLast? = some last ∧ x ≤ last := by
  rcases List.eq_nil_or_concat l with rfl | ⟨init, last, rfl⟩
  · simp at hx
  · rw [List.concat_eq_append] at h hx ⊢
    refine ⟨last, List.getLast?_concat .., ?_⟩
    rcases List.mem_append.mp hx with hinit | hlast
    · exact (List.pairwise_append.mp h).2.2 x hinit last (List.mem_singleton.mpr rfl) |>.le
    · rw [List.mem_singleton.mp hlast]

/-- All numbers of an open stream are small if its last number is. -/
theorem forall_seqIds_lt_iff {l : List Nat} (h : l.Pairwise (· < ·)) (n : Nat) :
    (∀ last ∈ l.getLast?, last < n) ↔ ∀ x ∈ l, x < n := by
  constructor
  · intro hlast x hx
    obtain ⟨last, hget, hle⟩ := le_getLast_of_mem h hx
    exact hle.trans_lt (hlast last hget)
  · intro hall last hlast
    exact hall last (List.mem_of_getLast? hlast)

theorem getLast?_append_toList (l : List Nat) (o : Option Nat) :
    (l ++ o.toList).getLast? = o.or l.getLast? := by
  rcases o with _ | x
  · simp
  · simp

theorem OpenStream.wellFormed {connectionId : Nat} {last : Option Nat} {stream : List LoggedEvent}
    (h : OpenStream connectionId last stream) : WellFormedStream connectionId stream := by
  obtain ⟨opened, messages, rfl, hopened, -, hmessages, -⟩ := h
  exact .inr ⟨opened, messages, [], by simp, hopened, hmessages, .inl rfl⟩

theorem OpenStream.closed {connectionId : Nat} {last : Option Nat} {stream : List LoggedEvent}
    (h : OpenStream connectionId last stream) (handled : Option ClientEnvelope) :
    WellFormedStream connectionId (stream ++ [⟨.connectionClosed connectionId, handled⟩]) := by
  obtain ⟨opened, messages, rfl, hopened, -, hmessages, -⟩ := h
  exact .inr ⟨opened, messages, _, rfl, hopened, hmessages, .inr ⟨_, rfl, rfl⟩⟩

/-- A message is forwarded after the others if its number is new. -/
theorem OpenStream.forwarded {connectionId : Nat} {last : Option Nat} {stream : List LoggedEvent}
    (h : OpenStream connectionId last stream) {envelope : ClientEnvelope} {message : JSONRPCMessage}
    (hevent : envelope.event = .clientMessage message)
    (hnew : ∀ seqId ∈ envelope.seqId, ∀ last' ∈ last, last' < seqId) :
    OpenStream connectionId (envelope.seqId.or last)
      (stream ++ [⟨.incomingMessage connectionId message, some envelope⟩]) := by
  obtain ⟨opened, messages, rfl, hopened, hne, hmessages, rfl⟩ := h
  have hseqIds : seqIds (messages ++ [⟨.incomingMessage connectionId message, some envelope⟩]) =
      seqIds messages ++ envelope.seqId.toList := by
    rw [seqIds_append hne]
    rcases hseqId : envelope.seqId with _ | seqId
    · simp [LoggedEvent.seqId, hseqId]
    · simp [LoggedEvent.seqId, hseqId]
  refine ⟨opened, messages ++ [⟨.incomingMessage connectionId message, some envelope⟩], rfl,
    hopened, by simp, ⟨?_, ?_, ?_⟩, ?_⟩
  · intro logged hmem
    rcases List.mem_append.mp hmem with hold | hlast
    · exact hmessages.forwards logged hold
    · rw [List.mem_singleton.mp hlast]
      exact ⟨envelope, message, rfl, hevent, rfl⟩
  · rw [List.head?_append_of_ne_nil _ hne]
    exact hmessages.starts
  · rw [hseqIds, List.pairwise_append]
    refine ⟨hmessages.increasing, ?_, ?_⟩
    · rcases envelope.seqId with _ | seqId
      · simp
      · simp
    · intro earlier hearlier seqId hseqId
      rw [Option.mem_toList] at hseqId
      exact (forall_seqIds_lt_iff hmessages.increasing seqId).mp (hnew seqId hseqId) earlier
        hearlier
  · rw [hseqIds, getLast?_append_toList]

/-- The stream of a connection that was just opened. -/
theorem openStream_opened {connectionId : Nat} {envelope : ClientEnvelope}
    {message : JSONRPCMessage} (hevent : envelope.event = .clientMessage message)
    (hstarts : envelope.isInitialize = true) :
    OpenStream connectionId (if envelope.streamId.isNone then none else envelope.seqId)
      [⟨.connectionOpened connectionId, some envelope⟩,
        ⟨.incomingMessage connectionId message, some envelope⟩] := by
  have hseqIds : seqIds [⟨.incomingMessage connectionId message, some envelope⟩] =
      if envelope.streamId.isNone then [] else envelope.seqId.toList := by
    unfold seqIds
    cases hlegacy : envelope.streamId.isNone with
    | true => simp [LoggedEvent.isLegacy, hlegacy]
    | false =>
        rcases hseqId : envelope.seqId with _ | seqId
        · simp [LoggedEvent.isLegacy, hlegacy, LoggedEvent.seqId, hseqId]
        · simp [LoggedEvent.isLegacy, hlegacy, LoggedEvent.seqId, hseqId]
  refine ⟨_, _, rfl, rfl, by simp, ⟨?_, ?_, ?_⟩, ?_⟩
  · intro logged hmem
    rw [List.mem_singleton.mp hmem]
    exact ⟨envelope, message, rfl, hevent, rfl⟩
  · intro first hfirst
    rw [List.head?_cons, Option.mem_some_iff] at hfirst
    rw [← hfirst]
    exact hstarts
  · rw [hseqIds]
    split
    · exact List.Pairwise.nil
    · rcases envelope.seqId with _ | seqId
      · simp
      · simp
  · rw [hseqIds]
    split
    · rfl
    · rcases envelope.seqId with _ | seqId
      · rfl
      · rfl

/-! ### The streams along a run -/

/-- The streams of all connections, by what is registered. -/
structure Streams (t : ClientTracker) (log : List LoggedEvent) : Prop where
  unused : ∀ connectionId, t.nextConnectionId ≤ connectionId → streamOf connectionId log = []
  registered : ∀ key client, t.clients.lookup key = some client →
    OpenStream client.connectionId client.lastInboundSeqId (streamOf client.connectionId log)
  distinct : ∀ key key' client client', t.clients.lookup key = some client →
    t.clients.lookup key' = some client' → client.connectionId = client'.connectionId → key = key'
  wellFormed : ∀ connectionId, WellFormedStream connectionId (streamOf connectionId log)

theorem streamOf_append (connectionId : Nat) (log more : List LoggedEvent) :
    streamOf connectionId (log ++ more) =
      streamOf connectionId log ++ streamOf connectionId more :=
  List.filter_append _ _

theorem streamOf_of_ne {connectionId : Nat} {log : List LoggedEvent}
    (h : ∀ logged ∈ log, logged.event.connectionId ≠ connectionId) :
    streamOf connectionId log = [] :=
  List.filter_eq_nil_iff.mpr fun logged hmem => by simpa using h logged hmem

theorem streamOf_of_eq {connectionId : Nat} {log : List LoggedEvent}
    (h : ∀ logged ∈ log, logged.event.connectionId = connectionId) :
    streamOf connectionId log = log :=
  List.filter_eq_self.mpr fun logged hmem => by simpa using h logged hmem

namespace Streams

variable {t t' : ClientTracker} {log : List LoggedEvent} {handled : Option ClientEnvelope}

theorem start : Streams {} [] where
  unused _ _ := rfl
  registered key client h := by simp at h
  distinct key key' client client' h := by simp at h
  wellFormed _ := .inl rfl

theorem connectionId_lt (h : Streams t log) {key : ClientKey} {client : ClientState}
    (hclient : t.clients.lookup key = some client) : client.connectionId < t.nextConnectionId := by
  by_contra hle
  obtain ⟨opened, messages, hstream, -⟩ := h.registered key client hclient
  rw [h.unused _ (Nat.le_of_not_lt hle)] at hstream
  simp at hstream

/-- Events of one connection leave the streams of the others as they are. -/
theorem streamOf_append_of_ne {connectionId other : Nat} {more : List LoggedEvent}
    (hmore : ∀ logged ∈ more, logged.event.connectionId = connectionId)
    (hne : other ≠ connectionId) : streamOf other (log ++ more) = streamOf other log := by
  have hnone : streamOf other more = [] := by
    apply streamOf_of_ne
    intro logged hmem
    rw [hmore logged hmem]
    exact hne.symm
  rw [streamOf_append, hnone, List.append_nil]

theorem streamOf_append_self {connectionId : Nat} {more : List LoggedEvent}
    (hmore : ∀ logged ∈ more, logged.event.connectionId = connectionId) :
    streamOf connectionId (log ++ more) = streamOf connectionId log ++ more := by
  rw [streamOf_append, streamOf_of_eq hmore]

/-- Nothing is emitted for connections that stay as they are. -/
theorem of_sameClients (h : Streams t log) (hclients : SameClients t t')
    (hnext : t.nextConnectionId ≤ t'.nextConnectionId) : Streams t' log := by
  have hback : ∀ key client, t'.clients.lookup key = some client → ∃ old,
      t.clients.lookup key = some old ∧ old.connectionId = client.connectionId ∧
        old.lastInboundSeqId = client.lastInboundSeqId := by
    intro key client hclient
    have hsame := hclients key
    rw [hclient, Option.map_some] at hsame
    obtain ⟨old, hold, heq⟩ := Option.map_eq_some_iff.mp hsame.symm
    rw [Prod.mk.injEq] at heq
    exact ⟨old, hold, heq.1, heq.2⟩
  refine ⟨fun connectionId hle => h.unused connectionId (hnext.trans hle), ?_, ?_, h.wellFormed⟩
  · intro key client hclient
    obtain ⟨old, hold, hid, hlast⟩ := hback key client hclient
    rw [← hid, ← hlast]
    exact h.registered key old hold
  · intro key key' client client' hclient hclient' hid
    obtain ⟨old, hold, hold_id, -⟩ := hback key client hclient
    obtain ⟨old', hold', hold_id', -⟩ := hback key' client' hclient'
    exact h.distinct key key' old old' hold hold' (by rw [hold_id, hold_id', hid])

theorem closed (h : Streams t log) {key : ClientKey} {client : ClientState}
    (hclient : t.clients.lookup key = some client) (hclients : t'.clients = t.clients.erase key)
    (hnext : t'.nextConnectionId = t.nextConnectionId) :
    Streams t' (log ++ [⟨.connectionClosed client.connectionId, handled⟩]) := by
  have hmore : ∀ logged ∈ [(⟨.connectionClosed client.connectionId, handled⟩ : LoggedEvent)],
      logged.event.connectionId = client.connectionId := by simp [TransportEvent.connectionId]
  have hback : ∀ other found, t'.clients.lookup other = some found →
      other ≠ key ∧ t.clients.lookup other = some found := by
    intro other found hfound
    rw [hclients] at hfound
    by_cases hkey : other = key
    · rw [hkey, AList.lookup_erase] at hfound
      simp at hfound
    · rw [AList.lookup_erase_ne hkey] at hfound
      exact ⟨hkey, hfound⟩
  refine ⟨?_, ?_, ?_, ?_⟩
  · intro connectionId hle
    rw [hnext] at hle
    have hlt := h.connectionId_lt hclient
    rw [streamOf_append_of_ne hmore (by omega)]
    exact h.unused connectionId hle
  · intro other found hfound
    obtain ⟨hne, hfound⟩ := hback other found hfound
    have hid : found.connectionId ≠ client.connectionId :=
      fun hid => hne (h.distinct other key found client hfound hclient hid)
    rw [streamOf_append_of_ne hmore hid]
    exact h.registered other found hfound
  · intro other other' found found' hfound hfound' hid
    exact h.distinct other other' found found' (hback other found hfound).2
      (hback other' found' hfound').2 hid
  · intro connectionId
    by_cases hid : connectionId = client.connectionId
    · rw [hid, streamOf_append_self hmore]
      exact (h.registered key client hclient).closed handled
    · rw [streamOf_append_of_ne hmore hid]
      exact h.wellFormed connectionId

/-- A connection gets events and stays registered, with what its stream says. -/
theorem set (h : Streams t log) {key : ClientKey} {client : ClientState} {more : List LoggedEvent}
    (hclients : SetsClient t t' key client)
    (hmore : ∀ logged ∈ more, logged.event.connectionId = client.connectionId)
    (hnext : t.nextConnectionId ≤ t'.nextConnectionId)
    (hlt : client.connectionId < t'.nextConnectionId)
    (hother : ∀ other found, other ≠ key → t.clients.lookup other = some found →
      found.connectionId ≠ client.connectionId)
    (hopen : OpenStream client.connectionId client.lastInboundSeqId
      (streamOf client.connectionId log ++ more)) : Streams t' (log ++ more) := by
  have hback : ∀ other found, t'.clients.lookup other = some found →
      other = key ∧ found = client ∨ other ≠ key ∧ t.clients.lookup other = some found := by
    intro other found hfound
    rw [hclients other] at hfound
    split at hfound
    · rename_i hkey
      exact .inl ⟨hkey, (Option.some.inj hfound).symm⟩
    · rename_i hkey
      exact .inr ⟨hkey, hfound⟩
  refine ⟨?_, ?_, ?_, ?_⟩
  · intro connectionId hle
    rw [streamOf_append_of_ne hmore (by omega)]
    exact h.unused connectionId (hnext.trans hle)
  · intro other found hfound
    rcases hback other found hfound with ⟨-, rfl⟩ | ⟨hne, hfound⟩
    · rw [streamOf_append_self hmore]
      exact hopen
    · rw [streamOf_append_of_ne hmore (hother other found hne hfound)]
      exact h.registered other found hfound
  · intro other other' found found' hfound hfound' hid
    rcases hback other found hfound with ⟨rfl, rfl⟩ | ⟨hne, hfound⟩
    · rcases hback other' found' hfound' with ⟨rfl, -⟩ | ⟨hne', hfound'⟩
      · rfl
      · exact absurd hid.symm (hother other' found' hne' hfound')
    · rcases hback other' found' hfound' with ⟨rfl, rfl⟩ | ⟨-, hfound'⟩
      · exact absurd hid (hother other found hne hfound)
      · exact h.distinct other other' found found' hfound hfound' hid
  · intro connectionId
    by_cases hid : connectionId = client.connectionId
    · rw [hid, streamOf_append_self hmore]
      exact hopen.wellFormed
    · rw [streamOf_append_of_ne hmore hid]
      exact h.wellFormed connectionId

/-- A connection that is never registered is opened and closed. -/
theorem refused (h : Streams t log) (hclients : SameClients t t')
    (hnext : t'.nextConnectionId = t.nextConnectionId + 1) :
    Streams t' (log ++ [⟨.connectionOpened t.nextConnectionId, handled⟩,
      ⟨.connectionClosed t.nextConnectionId, handled⟩]) := by
  have hmore : ∀ logged ∈ [(⟨.connectionOpened t.nextConnectionId, handled⟩ : LoggedEvent),
      ⟨.connectionClosed t.nextConnectionId, handled⟩],
        logged.event.connectionId = t.nextConnectionId := by simp [TransportEvent.connectionId]
  have hsame := h.of_sameClients hclients (by omega)
  refine ⟨?_, ?_, hsame.distinct, ?_⟩
  · intro connectionId hle
    rw [streamOf_append_of_ne hmore (by omega)]
    exact h.unused connectionId (by omega)
  · intro key client hclient
    have hopen := hsame.registered key client hclient
    have hne : client.connectionId ≠ t.nextConnectionId := by
      intro hid
      obtain ⟨opened, messages, hstream, -⟩ := hopen
      rw [hid, h.unused _ le_rfl] at hstream
      simp at hstream
    rw [streamOf_append_of_ne hmore hne]
    exact hopen
  · intro connectionId
    by_cases hid : connectionId = t.nextConnectionId
    · rw [hid, streamOf_append_self hmore, h.unused _ le_rfl]
      exact .inr ⟨_, [], _, rfl, rfl, ⟨by simp, by simp, by simp [seqIds]⟩, .inr ⟨_, rfl, rfl⟩⟩
    · rw [streamOf_append_of_ne hmore hid]
      exact h.wellFormed connectionId

theorem change (h : Streams t log) {emitted : List TransportEvent}
    (hchange : Change handled t t' emitted) :
    Streams t' (log ++ emitted.map fun event => ⟨event, handled⟩) := by
  cases hchange with
  | quiet hclients hnext =>
      rw [List.map_nil, List.append_nil]
      exact h.of_sameClients hclients hnext
  | closed key client hclient hclients hnext => exact h.closed hclient hclients hnext
  | opened key client envelope message hhandled hevent hstarts hid hlast hfree hclients hnext =>
      subst hhandled
      refine h.set hclients ?_ (by omega) (by omega) ?_ ?_
      · simp [TransportEvent.connectionId, hid]
      · intro other found _ hfound
        have hlt := h.connectionId_lt hfound
        omega
      · rw [hid, h.unused _ le_rfl, hlast]
        exact openStream_opened hevent hstarts
  | refused hclients hnext => exact h.refused hclients hnext
  | forwarded key client client' envelope message hhandled hevent hclient hnew hid hlast hclients
      hnext =>
      subst hhandled
      have hlt := h.connectionId_lt hclient
      refine h.set hclients ?_ (by omega) (by omega) ?_ ?_
      · simp [TransportEvent.connectionId, hid]
      · intro other found hne hfound heq
        exact hne (h.distinct other key found client hfound hclient (heq.trans hid))
      · rw [hid, hlast]
        exact (h.registered key client hclient).forwarded hevent hnew

theorem changes (h : Streams t log) {emitted : List TransportEvent}
    (hchanges : Changes handled t t' emitted) :
    Streams t' (log ++ emitted.map fun event => ⟨event, handled⟩) := by
  induction hchanges generalizing log with
  | done t =>
      rw [List.map_nil, List.append_nil]
      exact h
  | next hchange _ _ ih =>
      rw [List.map_append, ← List.append_assoc]
      exact ih (h.change hchange)

theorem step (h : Streams t log) (op : TrackerOp) :
    Streams (op.step t) (log ++ (op.emitted t).map fun event => ⟨event, op.envelope⟩) := by
  obtain ⟨emitted, hchanges⟩ := op.changesTo t
  have hemitted : op.emitted t = emitted := by
    rw [TrackerOp.emitted, hchanges.events_eq, List.drop_left]
  rw [hemitted]
  exact h.changes hchanges

theorem run (h : Streams t log) (ops : List TrackerOp) :
    Streams (runOps TrackerOp.step ops t) (log ++ eventLog ops t) := by
  induction ops generalizing t log with
  | nil =>
      rw [eventLog, List.append_nil]
      exact h
  | cons op ops ih =>
      rw [eventLog, ← List.append_assoc]
      exact ih (h.step op)

end Streams

/-! ### Messages that are sent again -/

/-- A message other than `initialize` arrives for a connection. -/
structure Arrives (envelope : ClientEnvelope) (surroundings : Surroundings)
    (message : JSONRPCMessage) (client : ClientState) (t : ClientTracker) : Prop where
  event : envelope.event = .clientMessage message
  other : envelope.isInitialize = false
  stream : (keyOf envelope surroundings t).2 ≠ []
  client : t.clients.lookup (keyOf envelope surroundings t) = some client

namespace Arrives

variable {envelope : ClientEnvelope} {surroundings : Surroundings} {message : JSONRPCMessage}
  {client : ClientState} {t : ClientTracker}

theorem handleMessage_eq (h : Arrives envelope surroundings message client t) :
    handleMessage envelope surroundings t =
      if client.hasSeen envelope then (.ok (), t)
      else
        forwardMessage (keyOf envelope surroundings t) envelope message client surroundings t := by
  have hrelease : releaseLegacyStream envelope t = t := by
    simp [releaseLegacyStream, h.other]
  have hrun : handleMessage envelope surroundings t =
      handleEvent (keyOf envelope surroundings t) envelope surroundings t := by
    simp only [handleMessage, Exec.bind_run, Exec.gets_run, Exec.modify_run, hrelease,
      if_neg h.stream]
  rw [hrun]
  unfold handleEvent
  simp only [h.event]
  rw [handleClientMessage_other h.other, h.client]

theorem emitted_eq (h : Arrives envelope surroundings message client t) :
    TrackerOp.emitted (.message envelope surroundings) t =
      if client.hasSeen envelope = false ∧ surroundings.incomingSent = true then
        [.incomingMessage client.connectionId message]
      else [] := by
  have hstep : TrackerOp.step (.message envelope surroundings) t =
      (handleMessage envelope surroundings t).2 := rfl
  unfold TrackerOp.emitted
  rw [hstep, h.handleMessage_eq]
  have hsame := updateClient_same (keyOf envelope surroundings t)
    (fun client => { client with lastActivityAt := surroundings.now }) t
  by_cases hseen : client.hasSeen envelope = true
  · simp [hseen]
  · rw [Bool.not_eq_true] at hseen
    rw [hseen, if_neg Bool.false_ne_true, forwardMessage_state]
    dsimp only
    cases hsent : surroundings.incomingSent with
    | false => simp [hsame.2]
    | true =>
        rw [if_pos rfl, (recordInboundMessageDelivery_same _ _ _).2]
        simp [emit, hsame.2]

end Arrives

/-- What was not seen is seen later only if a number as large was forwarded in between. -/
theorem not_hasSeen_iff {connectionId : Nat} {client client' : ClientState}
    {log more : List LoggedEvent} {envelope : ClientEnvelope}
    (hopen : OpenStream connectionId client.lastInboundSeqId (streamOf connectionId log))
    (hopen' : OpenStream connectionId client'.lastInboundSeqId
      (streamOf connectionId (log ++ more)))
    (hunseen : client.hasSeen envelope = false) :
    client'.hasSeen envelope = false ↔ ∀ seqId ∈ envelope.seqId,
      ∀ other ∈ (streamOf connectionId more).filterMap LoggedEvent.seqId, other < seqId := by
  obtain ⟨opened, messages, hstream, -, hne, hmessages, hlast⟩ := hopen
  obtain ⟨opened', messages', hstream', -, -, hmessages', hlast'⟩ := hopen'
  rw [streamOf_append, hstream, List.cons_append, List.cons.injEq] at hstream'
  obtain ⟨-, rfl⟩ := hstream'
  have hseen : client'.hasSeen envelope = false ↔
      ∀ seqId ∈ envelope.seqId, ∀ last ∈ client'.lastInboundSeqId, last < seqId := by
    constructor
    · exact lt_of_not_hasSeen
    · intro hlt
      rcases hseqId : envelope.seqId with _ | seqId
      · simp [ClientState.hasSeen, hseqId]
      · rcases hfound : client'.lastInboundSeqId with _ | last
        · simp [ClientState.hasSeen, hseqId, hfound]
        · simpa [ClientState.hasSeen, hseqId, hfound] using hlt seqId hseqId last hfound
  rw [hseen, hlast']
  constructor
  · intro hlt seqId hseqId other hother
    refine (forall_seqIds_lt_iff hmessages'.increasing seqId).mp (hlt seqId hseqId) other ?_
    rw [seqIds_append hne]
    exact List.mem_append_right _ hother
  · intro hlt seqId hseqId
    rw [forall_seqIds_lt_iff hmessages'.increasing, seqIds_append hne]
    intro other hother
    rcases List.mem_append.mp hother with hold | hnew
    · have hbefore := lt_of_not_hasSeen hunseen seqId hseqId
      rw [hlast] at hbefore
      exact (forall_seqIds_lt_iff hmessages.increasing seqId).mp hbefore other hold
    · exact hlt seqId hseqId other hnew

/-- In every run, the stream of each connection is well formed.  A message that could not be
forwarded is forwarded when it arrives again on its connection, if and only if no message with
the same or a larger number was forwarded there in between. -/
theorem eventLog_wellFormed :
    (∀ (ops : List TrackerOp) (connectionId : Nat),
      WellFormedStream connectionId (streamOf connectionId (eventLog ops {}))) ∧
    ∀ (before between : List TrackerOp) (envelope : ClientEnvelope)
      (failing passing : Surroundings) (message : JSONRPCMessage) (client client' : ClientState),
      Arrives envelope failing message client (runOps TrackerOp.step before {}) →
      client.hasSeen envelope = false → failing.incomingSent = false →
      Arrives envelope passing message client' (runOps TrackerOp.step
        (before ++ .message envelope failing :: between) {}) →
      client'.connectionId = client.connectionId → passing.incomingSent = true →
      (TrackerOp.emitted (.message envelope passing) (runOps TrackerOp.step
          (before ++ .message envelope failing :: between) {}) =
        [.incomingMessage client.connectionId message] ↔
      ∀ seqId ∈ envelope.seqId, ∀ other ∈ (streamOf client.connectionId (eventLog between
          (TrackerOp.step (.message envelope failing) (runOps TrackerOp.step before {})))).filterMap
            LoggedEvent.seqId, other < seqId) := by
  refine ⟨fun ops connectionId => ?_, ?_⟩
  · exact (Streams.start.run ops).wellFormed connectionId
  · intro before between envelope failing passing message client client' harrives hunseen hfailed
      harrives' hsame hpassing
    have hbefore := Streams.start.run before
    rw [List.nil_append] at hbefore
    have hafter := hbefore.step (.message envelope failing)
    have hnone : TrackerOp.emitted (.message envelope failing) (runOps TrackerOp.step before {}) =
        [] := by
      rw [harrives.emitted_eq, hfailed]
      simp
    rw [hnone, List.map_nil, List.append_nil] at hafter
    have hlater := hafter.run between
    have hrun : runOps TrackerOp.step (before ++ .message envelope failing :: between) {} =
        runOps TrackerOp.step between
          (TrackerOp.step (.message envelope failing) (runOps TrackerOp.step before {})) := by
      simp [runOps]
    rw [hrun] at harrives' ⊢
    have hopen := hbefore.registered _ client harrives.client
    have hopen' := hlater.registered _ client' harrives'.client
    rw [hsame] at hopen'
    rw [harrives'.emitted_eq, hpassing, hsame, ← not_hasSeen_iff hopen hopen' hunseen]
    cases client'.hasSeen envelope with
    | false => simp
    | true => simp

def sampleMessage (seqId : Nat) : ClientEnvelope :=
  ⟨.clientMessage (.other []), "c".toList, some "s".toList, some seqId, none⟩

def sampleFailing : Surroundings := ⟨0, [], true, true, false⟩

def samplePassing : Surroundings := ⟨0, [], true, true, true⟩

theorem arrives_sampleMessage (seqId : Nat) {surroundings : Surroundings} {client : ClientState}
    {t : ClientTracker} (h : t.clients.lookup ("c".toList, "s".toList) = some client) :
    Arrives (sampleMessage seqId) surroundings (.other []) client t where
  event := rfl
  other := rfl
  stream := by
    change "s".toList ≠ []
    decide
  client := h

/-- The message is not forwarded, and is when it arrives again. -/
theorem eventLog_sampleRetry :
    TrackerOp.emitted (.message (sampleMessage 1) sampleFailing)
        (runOps TrackerOp.step [sampleStart] {}) = [] ∧
      TrackerOp.emitted (.message (sampleMessage 1) samplePassing) (runOps TrackerOp.step
        [sampleStart, .message (sampleMessage 1) sampleFailing] {}) =
          [.incomingMessage 0 (.other [])] := by
  refine ⟨by decide +kernel, ?_⟩
  refine (eventLog_wellFormed.2 [sampleStart] [] (sampleMessage 1) sampleFailing samplePassing
    (.other []) ⟨0, 0, some 0⟩ ⟨0, 0, some 0⟩ (arrives_sampleMessage 1 (by decide +kernel))
    (by decide) rfl (arrives_sampleMessage 1 (by decide +kernel)) rfl rfl).mpr ?_
  intro seqId _ other hother
  exact absurd hother List.not_mem_nil

/-- A message that could not be forwarded is dropped when it arrives again, because the next
one was forwarded in between. -/
theorem not_forwarded_after_newer :
    ¬ ∀ (before between : List TrackerOp) (envelope : ClientEnvelope)
      (failing passing : Surroundings) (message : JSONRPCMessage) (client client' : ClientState),
      Arrives envelope failing message client (runOps TrackerOp.step before {}) →
      client.hasSeen envelope = false → failing.incomingSent = false →
      Arrives envelope passing message client' (runOps TrackerOp.step
        (before ++ .message envelope failing :: between) {}) →
      client'.connectionId = client.connectionId → passing.incomingSent = true →
      TrackerOp.emitted (.message envelope passing) (runOps TrackerOp.step
          (before ++ .message envelope failing :: between) {}) =
        [.incomingMessage client.connectionId message] := by
  intro h
  have hforwarded := h [sampleStart] [.message (sampleMessage 2) samplePassing] (sampleMessage 1)
    sampleFailing samplePassing (.other []) ⟨0, 0, some 0⟩ ⟨0, 0, some 2⟩
    (arrives_sampleMessage 1 (by decide +kernel)) (by decide) rfl
    (arrives_sampleMessage 1 (by decide +kernel)) rfl rfl
  have hnone : TrackerOp.emitted (.message (sampleMessage 1) samplePassing) (runOps TrackerOp.step
      ([sampleStart] ++ .message (sampleMessage 1) sampleFailing ::
        [.message (sampleMessage 2) samplePassing]) {}) = [] := by
    decide +kernel
  rw [hnone] at hforwarded
  simp at hforwarded

end Codewith.RemoteControl
