import Codewith.RemoteControl.ClientTracker

/-!
# Why connections are closed

A connection is closed for its own sake: its client closes it or starts over, it has been
idle, its first message could not be delivered, its task has ended, or everything is shut
down.  The one exception is a task that is reported after its connection was replaced.
-/

namespace Codewith.RemoteControl

open Lib

/-- The connections that were closed, in order. -/
def ClientTracker.closings (t : ClientTracker) : List Nat :=
  t.events.filterMap fun event => match event with
    | .connectionClosed connectionId => some connectionId
    | _ => none

/-- What closes a connection in a step, by what was there before. -/
inductive ClosingCause (op : TrackerOp) (t : ClientTracker) (connectionId : Nat) : Prop
  /-- The client of the connection has closed it or starts over, for the same stream. -/
  | received (envelope : ClientEnvelope) (surroundings : Surroundings) (task : OutboundTask)
      (hop : op = .message envelope surroundings)
      (hevent : envelope.event = .clientClosed ∨ envelope.isInitialize = true)
      (htask : task ∈ t.spawned) (hkey : task.key = keyOf envelope surroundings t)
      (hconnection : task.connectionId = connectionId)
  /-- The message that opens the connection is not delivered. -/
  | undelivered (envelope : ClientEnvelope) (surroundings : Surroundings)
      (hop : op = .message envelope surroundings) (hstarts : envelope.isInitialize = true)
      (hsent : surroundings.incomingSent = false) (hconnection : connectionId = t.nextConnectionId)
  | idle (now : Nat) (stopsAt : Option Nat) (key : ClientKey) (client : ClientState)
      (hop : op = .idleSweep now stopsAt) (hclient : t.clients.lookup key = some client)
      (hconnection : client.connectionId = connectionId) (hidle : client.isAlive now = false)
  /-- The task of this connection has ended. -/
  | taskEnded (hended : connectionId ∈ t.ended)
  | shutdown (hshutdown : op = .shutdown ∨ t.shutDown = true)

/-- Connections are registered under the key of their task, and tasks are reported once they
have ended. -/
structure ClientTracker.Consistent (t : ClientTracker) : Prop where
  registered : ∀ key client, t.clients.lookup key = some client →
    ⟨key, client.connectionId⟩ ∈ t.spawned
  finished : ∀ task ∈ t.finished, task.connectionId ∈ t.ended
  reported : ∀ task ∈ t.reported, task.connectionId ∈ t.ended

/-! ## Closing one client -/

/-- The tracker once the client of a key is closed. -/
def ClientTracker.withoutClient (t : ClientTracker) (key : ClientKey) : ClientTracker :=
  match t.clients.lookup key with
  | none => t
  | some client => emit (.connectionClosed client.connectionId) (removeClient key t)

theorem closeClient_state (key : ClientKey) (sent : Bool) (t : ClientTracker) :
    (closeClient key sent t).2 = t.withoutClient key := by
  rcases hclient : t.clients.lookup key with _ | client
  · simp [closeClient, ClientTracker.withoutClient, Exec.bind_run, hclient]
  · cases sent <;> simp [closeClient, ClientTracker.withoutClient, Exec.bind_run, hclient]

theorem closings_emit_closed (t : ClientTracker) (connectionId : Nat) :
    (emit (.connectionClosed connectionId) t).closings = t.closings ++ [connectionId] := by
  simp [ClientTracker.closings, emit]

namespace ClientTracker

variable {t : ClientTracker}

theorem closings_withoutClient (key : ClientKey) :
    (t.withoutClient key).closings =
      t.closings ++ ((t.clients.lookup key).map (·.connectionId)).toList := by
  unfold withoutClient
  rcases hclient : t.clients.lookup key with _ | client
  · simp
  · exact closings_emit_closed _ _

theorem lookup_withoutClient {key other : ClientKey} {client : ClientState}
    (h : (t.withoutClient key).clients.lookup other = some client) :
    other ≠ key ∧ t.clients.lookup other = some client := by
  unfold withoutClient at h
  rcases hclient : t.clients.lookup key with _ | closed
  · rw [hclient] at h
    refine ⟨?_, h⟩
    rintro rfl
    rw [hclient] at h
    cases h
  · rw [hclient] at h
    change (t.clients.erase key).lookup other = some client at h
    by_cases hsame : other = key
    · rw [hsame, AList.lookup_erase] at h
      cases h
    · rw [AList.lookup_erase_ne hsame] at h
      exact ⟨hsame, h⟩

/-- Closing a client leaves the tasks alone. -/
theorem withoutClient_tasks (key : ClientKey) :
    (t.withoutClient key).spawned = t.spawned ∧ (t.withoutClient key).finished = t.finished ∧
      (t.withoutClient key).reported = t.reported ∧ (t.withoutClient key).ended = t.ended ∧
      (t.withoutClient key).nextConnectionId = t.nextConnectionId := by
  unfold withoutClient
  split <;> exact ⟨rfl, rfl, rfl, rfl, rfl⟩

theorem Consistent.withoutClient (h : t.Consistent) (key : ClientKey) :
    (t.withoutClient key).Consistent := by
  obtain ⟨hspawned, hfinished, hreported, hended, -⟩ := t.withoutClient_tasks key
  refine ⟨?_, ?_, ?_⟩
  · intro other client hclient
    rw [hspawned]
    exact h.registered other client (lookup_withoutClient hclient).2
  · rw [hfinished, hended]
    exact h.finished
  · rw [hreported, hended]
    exact h.reported

end ClientTracker

/-! ## Steps that close nothing -/

/-- Connections stay as they are, and new ones come with their tasks. -/
structure ClientTracker.Keeps (t t' : ClientTracker) : Prop where
  closings : t'.closings = t.closings
  registered : ∀ key client, t'.clients.lookup key = some client →
    (∃ old, t.clients.lookup key = some old ∧ old.connectionId = client.connectionId) ∨
      ⟨key, client.connectionId⟩ ∈ t'.spawned
  spawned : ∀ task ∈ t.spawned, task ∈ t'.spawned
  finished : t'.finished = t.finished
  reported : t'.reported = t.reported
  ended : t'.ended = t.ended

namespace ClientTracker.Keeps

variable {t t' t'' : ClientTracker}

theorem refl (t : ClientTracker) : t.Keeps t :=
  ⟨rfl, fun _ client h => .inl ⟨client, h, rfl⟩, fun _ h => h, rfl, rfl, rfl⟩

theorem trans (h : t.Keeps t') (h' : t'.Keeps t'') : t.Keeps t'' := by
  refine ⟨h'.closings.trans h.closings, ?_,
    fun task htask => h'.spawned task (h.spawned task htask),
    h'.finished.trans h.finished, h'.reported.trans h.reported, h'.ended.trans h.ended⟩
  intro key client hclient
  rcases h'.registered key client hclient with ⟨old, hold, hsame⟩ | hspawned
  · rcases h.registered key old hold with ⟨older, holder, hsame'⟩ | hspawned
    · exact .inl ⟨older, holder, hsame'.trans hsame⟩
    · rw [← hsame]
      exact .inr (h'.spawned _ hspawned)
  · exact .inr hspawned

theorem consistent (h : t.Keeps t') (ht : t.Consistent) : t'.Consistent := by
  refine ⟨?_, ?_, ?_⟩
  · intro key client hclient
    rcases h.registered key client hclient with ⟨old, hold, hsame⟩ | hspawned
    · rw [← hsame]
      exact h.spawned _ (ht.registered key old hold)
    · exact hspawned
  · rw [h.finished, h.ended]
    exact ht.finished
  · rw [h.reported, h.ended]
    exact ht.reported

theorem emitMessage (t : ClientTracker) (connectionId : Nat) (message : JSONRPCMessage) :
    t.Keeps (emit (.incomingMessage connectionId message) t) := by
  refine ⟨?_, fun _ client h => .inl ⟨client, h, rfl⟩, fun _ h => h, rfl, rfl, rfl⟩
  simp [ClientTracker.closings, emit]

theorem updateClient (t : ClientTracker) (key : ClientKey) {f : ClientState → ClientState}
    (hf : ∀ client, (f client).connectionId = client.connectionId) :
    t.Keeps (RemoteControl.updateClient key f t) := by
  unfold RemoteControl.updateClient
  rcases hclient : t.clients.lookup key with _ | client
  · exact refl t
  · refine ⟨rfl, ?_, fun _ h => h, rfl, rfl, rfl⟩
    intro other after hafter
    by_cases hsame : other = key
    · subst hsame
      rw [AList.lookup_insert] at hafter
      obtain rfl := Option.some.inj hafter
      exact .inl ⟨client, hclient, (hf client).symm⟩
    · rw [AList.lookup_insert_ne hsame] at hafter
      exact .inl ⟨after, hafter, rfl⟩

theorem recordInboundMessageDelivery (t : ClientTracker) (key : ClientKey) (seqId : Option Nat) :
    t.Keeps (RemoteControl.recordInboundMessageDelivery key seqId t) := by
  cases seqId with
  | none => exact refl t
  | some seqId => exact updateClient t key fun _ => rfl

theorem releaseLegacyStream (t : ClientTracker) (envelope : ClientEnvelope) :
    t.Keeps (RemoteControl.releaseLegacyStream envelope t) := by
  unfold RemoteControl.releaseLegacyStream
  split
  · exact ⟨rfl, fun _ client h => .inl ⟨client, h, rfl⟩, fun _ h => h, rfl, rfl, rfl⟩
  · exact refl t

theorem openClient (t : ClientTracker) (key : ClientKey) (connectionId : Nat) (isLegacy : Bool)
    (now : Nat) : t.Keeps (RemoteControl.openClient key connectionId isLegacy now t) := by
  refine ⟨rfl, ?_, fun task h => List.mem_append_left _ h, rfl, rfl, rfl⟩
  intro other client hclient
  change (t.clients.insert key ⟨connectionId, now, none⟩).lookup other = some client at hclient
  by_cases hsame : other = key
  · subst hsame
    rw [AList.lookup_insert] at hclient
    obtain rfl := Option.some.inj hclient
    exact .inr (List.mem_append_right _ (List.mem_singleton.2 rfl))
  · rw [AList.lookup_insert_ne hsame] at hclient
    exact .inl ⟨client, hclient, rfl⟩

end ClientTracker.Keeps

/-! ## Messages -/

/-- What a command has closed, and that it leaves a consistent tracker. -/
def Closes (m : Command Unit) (t : ClientTracker) (closed : List Nat) : Prop :=
  (m t).2.closings = t.closings ++ closed ∧ (m t).2.Consistent

theorem Closes.of_keeps {m : Command Unit} {t : ClientTracker} (ht : t.Consistent)
    (h : t.Keeps (m t).2) : Closes m t [] :=
  ⟨by rw [h.closings, List.append_nil], h.consistent ht⟩

theorem closes_closeClient {t : ClientTracker} (ht : t.Consistent) (key : ClientKey) (sent : Bool) :
    Closes (closeClient key sent) t ((t.clients.lookup key).map (·.connectionId)).toList := by
  rw [Closes, closeClient_state]
  exact ⟨t.closings_withoutClient key, ht.withoutClient key⟩

theorem keeps_forwardMessage (key : ClientKey) (envelope : ClientEnvelope)
    (message : JSONRPCMessage) (client : ClientState) (surroundings : Surroundings) :
    Exec.Within ClientTracker.Keeps (forwardMessage key envelope message client surroundings) := by
  have htrans : ∀ a b c : ClientTracker, a.Keeps b → b.Keeps c → a.Keeps c :=
    fun _ _ _ => ClientTracker.Keeps.trans
  refine .bind htrans (.modify fun t => .updateClient t key fun _ => rfl) fun _ =>
    .bind htrans ?_ fun _ => .modify fun t => .recordInboundMessageDelivery t key envelope.seqId
  unfold sendTransportEvent
  split
  · exact .modify fun t => .emitMessage t client.connectionId message
  · exact .fail ClientTracker.Keeps.refl Stopped.stopped

/-- The tracker once a connection is announced and registered. -/
def ClientTracker.opened (t : ClientTracker) (key : ClientKey) (isLegacy : Bool) (now : Nat) :
    ClientTracker :=
  openClient key t.nextConnectionId isLegacy now
    (emit (.connectionOpened t.nextConnectionId)
      { t with nextConnectionId := t.nextConnectionId + 1 })

theorem ClientTracker.keeps_opened (t : ClientTracker) (key : ClientKey) (isLegacy : Bool)
    (now : Nat) : t.Keeps (t.opened key isLegacy now) := by
  have hannounced : t.Keeps (emit (.connectionOpened t.nextConnectionId)
      { t with nextConnectionId := t.nextConnectionId + 1 }) := by
    refine ⟨?_, fun _ client h => .inl ⟨client, h, rfl⟩, fun _ h => h, rfl, rfl, rfl⟩
    simp [ClientTracker.closings, emit]
  exact hannounced.trans (.openClient _ key _ isLegacy now)

theorem ClientTracker.lookup_opened (t : ClientTracker) (key : ClientKey) (isLegacy : Bool)
    (now : Nat) : (t.opened key isLegacy now).clients.lookup key =
      some ⟨t.nextConnectionId, now, none⟩ :=
  AList.lookup_insert _

/-- What becomes of a new connection depends on which of its two events are received. -/
theorem startConnection_state (key : ClientKey) (envelope : ClientEnvelope)
    (message : JSONRPCMessage) (surroundings : Surroundings) (t : ClientTracker) :
    (startConnection key envelope message surroundings t).2 =
      if surroundings.openedSent then
        if surroundings.incomingSent then
          let after := emit (.incomingMessage t.nextConnectionId message)
            (t.opened key envelope.streamId.isNone surroundings.now)
          if envelope.streamId.isNone then after
          else recordInboundMessageDelivery key envelope.seqId after
        else (t.opened key envelope.streamId.isNone surroundings.now).withoutClient key
      else { t with nextConnectionId := t.nextConnectionId + 1 } := by
  cases hannounced : surroundings.openedSent with
  | false => simp [startConnection, Exec.bind_run, sendTransportEvent, hannounced]
  | true =>
      cases hdelivered : surroundings.incomingSent with
      | true =>
          simp [startConnection, Exec.bind_run, sendTransportEvent, hannounced, hdelivered,
            ClientTracker.opened]
      | false =>
          rw [ClientTracker.withoutClient, ClientTracker.lookup_opened]
          simp [startConnection, Exec.bind_run, sendTransportEvent, hannounced, hdelivered,
            ClientTracker.opened]

/-- A new connection is closed at once when its first message is not delivered. -/
theorem closes_startConnection {t : ClientTracker} (ht : t.Consistent) (key : ClientKey)
    (envelope : ClientEnvelope) (message : JSONRPCMessage) (surroundings : Surroundings) :
    ∃ closed, Closes (startConnection key envelope message surroundings) t closed ∧
      ∀ connectionId ∈ closed,
        connectionId = t.nextConnectionId ∧ surroundings.incomingSent = false := by
  have hopened := t.keeps_opened key envelope.streamId.isNone surroundings.now
  have hstate := startConnection_state key envelope message surroundings t
  cases hannounced : surroundings.openedSent with
  | false =>
      rw [hannounced, if_neg Bool.false_ne_true] at hstate
      refine ⟨[], .of_keeps ht ?_, by simp⟩
      rw [hstate]
      exact ⟨rfl, fun _ client h => .inl ⟨client, h, rfl⟩, fun _ h => h, rfl, rfl, rfl⟩
  | true =>
      rw [hannounced, if_pos rfl] at hstate
      cases hdelivered : surroundings.incomingSent with
      | true =>
          rw [hdelivered, if_pos rfl] at hstate
          refine ⟨[], .of_keeps ht ?_, by simp⟩
          have hafter := hopened.trans (.emitMessage _ t.nextConnectionId message)
          rw [hstate]
          dsimp only
          split
          · exact hafter
          · exact hafter.trans (.recordInboundMessageDelivery _ _ _)
      | false =>
          rw [hdelivered, if_neg Bool.false_ne_true] at hstate
          refine ⟨[t.nextConnectionId], ⟨?_, ?_⟩, by simp⟩
          · rw [hstate, ClientTracker.closings_withoutClient, hopened.closings,
              ClientTracker.lookup_opened]
            rfl
          · rw [hstate]
            exact (hopened.consistent ht).withoutClient key

theorem Closes.pure {t : ClientTracker} (ht : t.Consistent) : Closes (Pure.pure ()) t [] :=
  .of_keeps ht (.refl t)

/-- What follows a command closes further connections, if it is reached. -/
theorem Closes.bind {m next : Command Unit} {t : ClientTracker} {closed : List Nat}
    {P : Nat → Prop} (hm : Closes m t closed)
    (hnext : ∃ more, Closes next (m t).2 more ∧ ∀ connectionId ∈ more, P connectionId) :
    ∃ more, Closes (m >>= fun _ => next) t (closed ++ more) ∧ ∀ connectionId ∈ more,
      P connectionId := by
  rcases hrun : m t with ⟨_ | u, t'⟩
  · refine ⟨[], ?_, by simp⟩
    rw [Closes, Exec.bind_run_error hrun, List.append_nil]
    rw [Closes, hrun] at hm
    exact hm
  · obtain ⟨more, hmore, hP⟩ := hnext
    refine ⟨more, ?_, hP⟩
    rw [hrun] at hmore
    rw [Closes, hrun] at hm
    rw [Closes, Exec.bind_run_ok hrun, hmore.1, hm.1, List.append_assoc]
    exact ⟨rfl, hmore.2⟩

/-- An `initialize` message closes the connection that it replaces, and perhaps its own. -/
theorem closes_initialize {t : ClientTracker} (ht : t.Consistent) (key : ClientKey)
    (envelope : ClientEnvelope) (message : JSONRPCMessage) (surroundings : Surroundings)
    (hstarts : envelope.isInitialize = true) :
    ∃ more, Closes (handleClientMessage key envelope message surroundings) t
        (((t.clients.lookup key).map (·.connectionId)).toList ++ more) ∧
      ∀ connectionId ∈ more,
        connectionId = t.nextConnectionId ∧ surroundings.incomingSent = false := by
  have hclosed := closes_closeClient ht key surroundings.closedSent
  have hnext : (t.withoutClient key).nextConnectionId = t.nextConnectionId :=
    (t.withoutClient_tasks key).2.2.2.2
  have hopens := closes_startConnection (ht.withoutClient key) key envelope message surroundings
  rw [hnext, ← closeClient_state key surroundings.closedSent t] at hopens
  have hrun : handleClientMessage key envelope message surroundings =
      (closeClient key surroundings.closedSent >>= fun _ =>
        startConnection key envelope message surroundings) := by
    simp only [handleClientMessage, hstarts, if_true]
  rw [hrun]
  exact hclosed.bind hopens

theorem closes_otherMessage {t : ClientTracker} (ht : t.Consistent) (key : ClientKey)
    (envelope : ClientEnvelope) (message : JSONRPCMessage) (surroundings : Surroundings)
    (hother : envelope.isInitialize = false) :
    Closes (handleClientMessage key envelope message surroundings) t [] := by
  apply Closes.of_keeps ht
  simp only [handleClientMessage, hother, Bool.false_eq_true, if_false, Exec.bind_run,
    Exec.gets_run]
  rcases t.clients.lookup key with _ | client
  · exact .refl t
  · dsimp only
    split
    · exact .refl t
    · exact keeps_forwardMessage key envelope message client surroundings t

/-- An event closes the connection of its own key, or the one that it has just opened. -/
theorem closes_handleEvent {t : ClientTracker} (ht : t.Consistent) (key : ClientKey)
    (envelope : ClientEnvelope) (surroundings : Surroundings) :
    ∃ closed, Closes (handleEvent key envelope surroundings) t closed ∧ ∀ connectionId ∈ closed,
      ((∃ client, t.clients.lookup key = some client ∧ client.connectionId = connectionId) ∧
        (envelope.event = .clientClosed ∨ envelope.isInitialize = true)) ∨
      (connectionId = t.nextConnectionId ∧ envelope.isInitialize = true ∧
        surroundings.incomingSent = false) := by
  have hlookup : ∀ connectionId ∈ ((t.clients.lookup key).map (·.connectionId)).toList,
      ∃ client, t.clients.lookup key = some client ∧ client.connectionId = connectionId := by
    intro connectionId hmem
    rw [Option.mem_toList] at hmem
    exact Option.map_eq_some_iff.1 hmem
  unfold handleEvent
  cases hevent : envelope.event with
  | clientMessage message =>
      cases hstarts : envelope.isInitialize with
      | true =>
          obtain ⟨more, hcloses, hmore⟩ :=
            closes_initialize ht key envelope message surroundings hstarts
          refine ⟨_, hcloses, ?_⟩
          intro connectionId hmem
          rcases List.mem_append.1 hmem with hold | hnew
          · exact .inl ⟨hlookup connectionId hold, .inr rfl⟩
          · exact .inr ⟨(hmore connectionId hnew).1, rfl, (hmore connectionId hnew).2⟩
      | false =>
          exact ⟨[], closes_otherMessage ht key envelope message surroundings hstarts, by simp⟩
  | ping =>
      exact ⟨[], .of_keeps ht (.updateClient t key fun _ => rfl), by simp⟩
  | clientClosed =>
      refine ⟨_, closes_closeClient ht key surroundings.closedSent, ?_⟩
      intro connectionId hmem
      exact .inl ⟨hlookup connectionId hmem, .inl rfl⟩
  | clientMessageChunk segmentId segmentCount messageSizeBytes messageChunkBase64 =>
      exact ⟨[], .pure ht, by simp⟩
  | ack segmentId => exact ⟨[], .pure ht, by simp⟩

/-- A message closes a connection only for a cause of its own. -/
theorem closes_handleMessage {t : ClientTracker} (ht : t.Consistent) (envelope : ClientEnvelope)
    (surroundings : Surroundings) :
    ∃ closed, Closes (handleMessage envelope surroundings) t closed ∧ ∀ connectionId ∈ closed,
      ClosingCause (.message envelope surroundings) t connectionId := by
  have hrelease := ClientTracker.Keeps.releaseLegacyStream t envelope
  have hrun : handleMessage envelope surroundings t =
      (if (keyOf envelope surroundings t).2 = [] then pure ()
        else handleEvent (keyOf envelope surroundings t) envelope surroundings)
        (releaseLegacyStream envelope t) := by
    simp only [handleMessage, Exec.bind_run, Exec.gets_run, Exec.modify_run]
  -- The legacy streams play no part in what is registered.
  have hsame : (releaseLegacyStream envelope t).clients = t.clients ∧
      (releaseLegacyStream envelope t).nextConnectionId = t.nextConnectionId := by
    unfold releaseLegacyStream
    split <;> exact ⟨rfl, rfl⟩
  rw [Exec.ite_run] at hrun
  split at hrun
  · refine ⟨[], ?_, by simp⟩
    rw [Closes, hrun, List.append_nil]
    exact ⟨hrelease.closings, hrelease.consistent ht⟩
  · obtain ⟨closed, hcloses, hcause⟩ := closes_handleEvent (hrelease.consistent ht)
      (keyOf envelope surroundings t) envelope surroundings
    rw [hsame.1, hsame.2] at hcause
    refine ⟨closed, ?_, ?_⟩
    · rw [Closes, hrun, ← hrelease.closings]
      exact hcloses
    · intro connectionId hmem
      rcases hcause connectionId hmem with ⟨⟨client, hclient, hid⟩, hevent⟩ | ⟨hid, hstarts, hsent⟩
      · exact .received envelope surroundings ⟨keyOf envelope surroundings t, client.connectionId⟩
          rfl hevent (ht.registered _ client hclient) rfl hid
      · exact .undelivered envelope surroundings rfl hstarts hsent hid

/-! ## Sweeps and the end of everything -/

/-- Some of the clients of `start` are closed, and nothing else has changed. -/
structure ClosedFrom (start : ClientTracker) (keys : List ClientKey)
    (t : ClientTracker) : Prop where
  consistent : t.Consistent
  clients : ∀ key client, t.clients.lookup key = some client →
    start.clients.lookup key = some client
  closings : ∃ closed, t.closings = start.closings ++ closed ∧ ∀ connectionId ∈ closed,
    ∃ key ∈ keys, ∃ client, start.clients.lookup key = some client ∧
      client.connectionId = connectionId

theorem ClosedFrom.close {start t : ClientTracker} {keys : List ClientKey}
    (h : ClosedFrom start keys t) {key : ClientKey} (hkey : key ∈ keys) (sent : Bool) :
    ClosedFrom start keys (closeClient key sent t).2 := by
  rw [closeClient_state]
  refine ⟨h.consistent.withoutClient key, ?_, ?_⟩
  · intro other client hclient
    exact h.clients other client (ClientTracker.lookup_withoutClient hclient).2
  · obtain ⟨closed, hclosed, hcause⟩ := h.closings
    refine ⟨closed ++ ((t.clients.lookup key).map (·.connectionId)).toList, ?_, ?_⟩
    · rw [ClientTracker.closings_withoutClient, hclosed, List.append_assoc]
    · intro connectionId hmem
      rcases List.mem_append.1 hmem with hold | hnew
      · exact hcause connectionId hold
      · rw [Option.mem_toList] at hnew
        obtain ⟨client, hclient, hid⟩ := Option.map_eq_some_iff.1 hnew
        exact ⟨key, hkey, client, h.clients key client hclient, hid⟩

theorem ClosedFrom.refl {t : ClientTracker} (ht : t.Consistent) (keys : List ClientKey) :
    ClosedFrom t keys t :=
  ⟨ht, fun _ _ h => h, [], by simp, by simp⟩

theorem closes_closeExpiredClients {t : ClientTracker} (ht : t.Consistent) (now : Nat)
    (stopsAt : Option Nat) :
    ∃ closed, Closes (closeExpiredClients now stopsAt) t closed ∧ ∀ connectionId ∈ closed,
      ClosingCause (.idleSweep now stopsAt) t connectionId := by
  let expired := (t.clients.entries.filter fun entry => !entry.2.isAlive now).map Sigma.fst
  have hrun : closeExpiredClients now stopsAt t =
      Exec.forEach (fun item => closeClient item.1 (stopsAt ≠ some item.2)) expired.zipIdx t := by
    simp only [closeExpiredClients, Exec.bind_run, Exec.gets_run]
    rfl
  have hend : ClosedFrom t expired (closeExpiredClients now stopsAt t).2 := by
    rw [hrun]
    refine Exec.forEach_invariant (C := fun item _ => item.1 ∈ expired) ?_ (.refl ht expired) ?_
    · intro item mid hmid hitem
      exact hmid.close hitem _
    · intro entry hentry
      exact List.fst_mem_of_mem_zipIdx (Exec.mem_of_mem_entered hentry)
  obtain ⟨closed, hclosed, hcause⟩ := hend.closings
  refine ⟨closed, ⟨hclosed, hend.consistent⟩, ?_⟩
  intro connectionId hmem
  obtain ⟨key, hkey, client, hclient, hid⟩ := hcause connectionId hmem
  obtain ⟨entry, hentry, rfl⟩ := List.mem_map.1 hkey
  obtain ⟨hmemEntry, hidle⟩ := List.mem_filter.1 hentry
  have hsame : entry.2 = client := by
    have hfound : t.clients.lookup entry.1 = some entry.2 := AList.mem_lookup_iff.2 hmemEntry
    exact Option.some.inj (hfound.symm.trans hclient)
  refine .idle now stopsAt entry.1 client rfl hclient hid ?_
  rw [← hsame]
  simpa using hidle

theorem closes_shutdown {t : ClientTracker} (ht : t.Consistent) :
    ∃ closed, Closes shutdown t closed := by
  let start := { t with shutDown := true }
  have hstart : start.Consistent := ⟨ht.registered, ht.finished, ht.reported⟩
  have hend : ClosedFrom start t.clients.keys
      (Exec.forEach (fun key => closeClient key true) t.clients.keys start).2 := by
    refine Exec.forEach_invariant (C := fun key _ => key ∈ t.clients.keys) ?_
      (.refl hstart t.clients.keys) ?_
    · intro key mid hmid hkey
      exact hmid.close hkey _
    · intro entry hentry
      exact Exec.mem_of_mem_entered hentry
  obtain ⟨closed, hclosed, -⟩ := hend.closings
  refine ⟨closed, ?_⟩
  rw [Closes]
  simp only [shutdown, Exec.bind_run, Exec.gets_run, Exec.modify_run]
  rcases hrun : Exec.forEach (fun key => closeClient key true) t.clients.keys start with
    ⟨_ | u, last⟩
  · rw [hrun] at hend hclosed
    exact ⟨hclosed, hend.consistent⟩
  · rw [hrun] at hend hclosed
    refine ⟨hclosed, hend.consistent.registered, by simp, ?_⟩
    intro task htask
    exact List.mem_append_left _ (hend.consistent.reported task htask)

/-! ## Runs of operations -/

/-- When the key of a task that was reported is passed to `close_client`, the connection that
is registered for it is the one of this task, or one whose task has ended as well, or
everything is shut down. -/
def TrackerOp.closesOwn (op : TrackerOp) (t : ClientTracker) : Bool :=
  match op with
  | .closeReported index _ => (t.reported[index]?).all fun task =>
      (t.clients.lookup task.key).all fun client =>
        client.connectionId = task.connectionId || client.connectionId ∈ t.ended || t.shutDown
  | _ => true

/-- The connections that a step closes. -/
def TrackerOp.closed (op : TrackerOp) (t : ClientTracker) : List Nat :=
  (op.step t).closings.drop t.closings.length

theorem TrackerOp.closed_eq {op : TrackerOp} {t : ClientTracker} {closed : List Nat}
    (h : Closes op.run t closed) : op.closed t = closed := by
  rw [TrackerOp.closed, TrackerOp.step, h.1, List.drop_left]

theorem closes_closeReported {t : ClientTracker} (ht : t.Consistent) (index : Nat) (sent : Bool) :
    Closes (TrackerOp.closeReported index sent).run t
      ((t.reported[index]?).bind fun task =>
        (t.clients.lookup task.key).map (·.connectionId)).toList := by
  rcases htask : t.reported[index]? with _ | task
  · have hrun : (TrackerOp.closeReported index sent).run t = (.ok (), t) := by
      simp [TrackerOp.run, Exec.bind_run, htask]
    rw [Closes, hrun]
    exact ⟨by simp, ht⟩
  · let taken := { t with reported := t.reported.eraseIdx index }
    have htaken : taken.Consistent := by
      refine ⟨ht.registered, ht.finished, ?_⟩
      intro other hother
      exact ht.reported other (List.mem_of_mem_eraseIdx hother)
    have hrun : (TrackerOp.closeReported index sent).run t = closeClient task.key sent taken := by
      simp [TrackerOp.run, Exec.bind_run, htask, taken]
    have hcloses := closes_closeClient htaken task.key sent
    rw [Closes, hrun]
    exact hcloses

/-- A step closes a connection only for a cause, unless it takes a connection for the one of
a task that was reported. -/
theorem TrackerOp.closes {t : ClientTracker} (ht : t.Consistent) (op : TrackerOp) :
    ∃ closed, Closes op.run t closed ∧
      ((∀ connectionId ∈ closed, ClosingCause op t connectionId) ↔ op.closesOwn t = true) := by
  cases op with
  | message envelope surroundings =>
      obtain ⟨closed, hcloses, hcause⟩ := closes_handleMessage ht envelope surroundings
      exact ⟨closed, hcloses, iff_of_true hcause rfl⟩
  | idleSweep now stopsAt =>
      obtain ⟨closed, hcloses, hcause⟩ := closes_closeExpiredClients ht now stopsAt
      exact ⟨closed, hcloses, iff_of_true hcause rfl⟩
  | taskEnds index =>
      refine ⟨[], ?_, iff_of_true (by simp) rfl⟩
      rw [Closes, TrackerOp.run, Exec.modify_run]
      rcases htask : t.running[index]? with _ | task
      · exact ⟨by simp, ht⟩
      · refine ⟨by simp [ClientTracker.closings], ht.registered, ?_, ?_⟩
        · intro other hother
          rcases List.mem_append.1 hother with hold | hnew
          · exact List.mem_append_left _ (ht.finished other hold)
          · rw [List.mem_singleton.1 hnew]
            exact List.mem_append_right _ (List.mem_singleton.2 rfl)
        · intro other hother
          exact List.mem_append_left _ (ht.reported other hother)
  | report index =>
      refine ⟨[], ?_, iff_of_true (by simp) rfl⟩
      rw [Closes, TrackerOp.run, Exec.modify_run]
      rcases htask : t.finished[index]? with _ | task
      · exact ⟨by simp, ht⟩
      · refine ⟨by simp [ClientTracker.closings], ht.registered, ?_, ?_⟩
        · intro other hother
          exact ht.finished other (List.mem_of_mem_eraseIdx hother)
        · intro other hother
          rcases List.mem_append.1 hother with hold | hnew
          · exact ht.reported other hold
          · rw [List.mem_singleton.1 hnew]
            exact ht.finished task (List.mem_of_getElem? htask)
  | closeReported index sent =>
      refine ⟨_, closes_closeReported ht index sent, ?_⟩
      rw [TrackerOp.closesOwn]
      rcases htask : t.reported[index]? with _ | task
      · simp
      · rcases hclient : t.clients.lookup task.key with _ | client
        · simp [hclient]
        · have hended : task.connectionId ∈ t.ended :=
            ht.reported task (List.mem_of_getElem? htask)
          simp only [Option.bind_some, hclient, Option.map_some, Option.toList_some,
            List.mem_singleton, forall_eq, Option.all_some, Bool.or_eq_true, decide_eq_true_eq]
          constructor
          · intro hcause
            cases hcause with
            | received _ _ _ hop => cases hop
            | undelivered _ _ hop => cases hop
            | idle _ _ _ _ hop => cases hop
            | taskEnded hmem => exact .inl (.inr hmem)
            | shutdown hshutdown => exact .inr (hshutdown.resolve_left (by simp))
          · rintro ((hsame | hmem) | hshutdown)
            · exact .taskEnded (hsame ▸ hended)
            · exact .taskEnded hmem
            · exact .shutdown (.inr hshutdown)
  | shutdown =>
      obtain ⟨closed, hcloses⟩ := closes_shutdown ht
      exact ⟨closed, hcloses, iff_of_true (fun _ _ => .shutdown (.inl rfl)) rfl⟩

theorem ClientTracker.consistent_runOps (ops : List TrackerOp) :
    (runOps TrackerOp.step ops {}).Consistent := by
  have hreaches : Reaches TrackerOp.step (fun _ _ => True) ({} : ClientTracker)
      (runOps TrackerOp.step ops {}) := Reaches.of_runOps ops .start
  have hstart : ({} : ClientTracker).Consistent := by
    refine ⟨?_, by simp, by simp⟩
    intro key client hclient
    rw [AList.lookup_empty] at hclient
    cases hclient
  refine hreaches.invariant hstart ?_
  intro op t _ ht
  obtain ⟨_, hcloses, -⟩ := op.closes ht
  exact hcloses.2

/-- For every sequence of messages, sweeps, ends and reports of tasks: connections are closed
only for cause in all of its steps if and only if, whenever a reported key is passed on, the
connection that is registered for it is not one that has taken the place of its own. -/
theorem closed_only_for_cause_iff (ops : List TrackerOp) :
    (∀ before op after, ops = before ++ op :: after →
      ∀ connectionId ∈ op.closed (runOps TrackerOp.step before {}),
        ClosingCause op (runOps TrackerOp.step before {}) connectionId) ↔
    ∀ before op after, ops = before ++ op :: after →
      op.closesOwn (runOps TrackerOp.step before {}) = true := by
  have hstep : ∀ (before : List TrackerOp) (op : TrackerOp),
      (∀ connectionId ∈ op.closed (runOps TrackerOp.step before {}),
        ClosingCause op (runOps TrackerOp.step before {}) connectionId) ↔
      op.closesOwn (runOps TrackerOp.step before {}) = true := by
    intro before op
    obtain ⟨closed, hcloses, hiff⟩ := op.closes (ClientTracker.consistent_runOps before)
    rw [TrackerOp.closed_eq hcloses]
    exact hiff
  constructor
  · intro h before op after hsplit
    exact (hstep before op).1 (h before op after hsplit)
  · intro h before op after hsplit
    exact (hstep before op).2 (h before op after hsplit)

/-! ## A client that starts over -/

def sampleStart : TrackerOp :=
  .message ⟨.clientMessage (.request "initialize".toList []), "c".toList, some "s".toList, some 0,
      none⟩
    ⟨0, [], true, true, true⟩

/-- A client starts twice, and the task of its first connection is reported afterwards. -/
def sampleRestart : List TrackerOp :=
  [sampleStart, sampleStart, .taskEnds 0, .report 0]

/-- The second connection is closed, whose task still runs. -/
theorem replaced_task_closes_new_connection :
    let t := runOps TrackerOp.step sampleRestart {}
    (TrackerOp.closeReported 0 true).closed t = [1] ∧
      ¬ClosingCause (.closeReported 0 true) t 1 := by
  intro t
  have hclosed : (TrackerOp.closeReported 0 true).closed t = [1] := by decide +kernel
  have hended : t.ended = [0] := by decide +kernel
  have hshutDown : t.shutDown = false := by decide +kernel
  refine ⟨hclosed, ?_⟩
  intro hcause
  cases hcause with
  | received _ _ _ hop => cases hop
  | undelivered _ _ hop => cases hop
  | idle _ _ _ _ hop => cases hop
  | taskEnded hmem =>
      rw [hended] at hmem
      simp at hmem
  | shutdown hshutdown =>
      rw [hshutDown] at hshutdown
      simp at hshutdown

end Codewith.RemoteControl
