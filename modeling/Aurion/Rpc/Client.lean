import Aurion.Rpc.Server

/-!
# Calls of the RPC client

A call opens a connection, writes one frame, reads one frame and closes the
connection.  Client and server are two programs that see of each other only the
bytes that arrive, and a connection may break at any byte in either direction.
-/

namespace Aurion

open Foundation

section Definition

/-- What a call does: it connects, writes whole frames, and takes what arrives
until the connection ends. -/
inductive ClientOp
  | connect
  | write (frame : Bytes)
  | receive

abbrev ClientOp.Answer : ClientOp → Type
  | .connect => Except String Unit
  | .write _ => Except RpcError Unit
  | .receive => Bytes

inductive CallError
  | transport (error : RpcError)
  | serialization (error : CodecError)
  | connectionFailed (reason : String)
  | nodeRejected (err : String)
  | protocolMismatch

abbrev ClientM (Value : Type) := ExceptT CallError (Program ClientOp ClientOp.Answer) Value

namespace RpcClient

/-- The response in the first frame that comes. -/
def readResponse (received : Bytes) : Except CallError RpcResponse := do
  let (respBytes, _) ← (readFrame received).mapError .transport
  (decodeCanonical respBytes).mapError .serialization

def call (request : RpcRequest) : ClientM RpcResponse := do
  let connected ← ExceptT.lift (Program.perform ClientOp.connect)
  settle (connected.mapError .connectionFailed)
  let frame ← settle ((writeFrame request.encodeCanonical).mapError .transport)
  let written ← ExceptT.lift (Program.perform (ClientOp.write frame))
  settle (written.mapError .transport)
  let received ← ExceptT.lift (Program.perform ClientOp.receive)
  settle (readResponse received)

/-- The response that a typed call expects, or the node's error. -/
def expect {Value : Type} (expected : RpcResponse → Option Value) :
    RpcResponse → Except CallError Value
  | .error err => .error (.nodeRejected err)
  | response => (expected response).elim (.error .protocolMismatch) .ok

def blockTemplate? : RpcResponse → Option BlockTemplate
  | .blockTemplate tmpl => some tmpl
  | _ => none

def submitBlock? : RpcResponse → Option Rpc.SubmitResult
  | .submitBlock result => some result
  | _ => none

def getBlockTemplate (payoutAddress : Bytes) : ClientM BlockTemplate := do
  let response ← call (.getBlockTemplate payoutAddress)
  settle (expect blockTemplate? response)

def submitBlock (block : Block) : ClientM Rpc.SubmitResult := do
  let response ← call (.submitBlock block)
  settle (expect submitBlock? response)

end RpcClient

end Definition

section Sessions

open RpcServer

/-- The bytes that the client tries to write. -/
def ClientOp.sent (dialogue : List ((op : ClientOp) × op.Answer)) : Bytes :=
  dialogue.flatMap fun exchange =>
    match exchange.1 with
    | .write frame => frame
    | _ => []

/-- The bytes that come to the client. -/
def ClientOp.received (dialogue : List ((op : ClientOp) × op.Answer)) : Bytes :=
  dialogue.flatMap fun exchange =>
    match exchange with
    | ⟨.receive, bytes⟩ => bytes
    | _ => []

/-- The bytes that the server tries to write. -/
def ConnectionOp.sent (dialogue : List ((op : ConnectionOp) × op.Answer)) : Bytes :=
  dialogue.flatMap fun exchange =>
    match exchange.1 with
    | .write frame => frame
    | .call _ => []

/-- The calls of the handler with its answers. -/
def ConnectionOp.calls (dialogue : List ((op : ConnectionOp) × op.Answer)) :
    List ((method : HandlerCall) × method.Answer) :=
  dialogue.filterMap fun exchange =>
    match exchange with
    | ⟨.call method, answer⟩ => some ⟨method, answer⟩
    | ⟨.write _, _⟩ => none

/-- A client and a server on one connection. Either side sees a part of what the
other one writes. -/
structure Session {Value : Type} (client : ClientM Value) where
  outcome : Except CallError Value
  clientSide : List ((op : ClientOp) × op.Answer)
  serverSide : List ((op : ConnectionOp) × op.Answer)
  ended : Except ConnectionError Unit
  arrived : Bytes
  returns : client.run.Yields clientSide outcome
  arrives : arrived <+: ClientOp.sent clientSide
  serves : (handleConnection arrived).run.Yields serverSide ended
  receives : ClientOp.received clientSide <+: ConnectionOp.sent serverSide

/-- What the handler was asked in the session, with its answers. -/
def Session.calls {Value : Type} {client : ClientM Value} (session : Session client) :
    List ((method : HandlerCall) × method.Answer) :=
  ConnectionOp.calls session.serverSide

end Sessions

section Sides

open RpcServer

variable {request : RpcRequest}

/-- How far a call gets. -/
inductive CallSide (request : RpcRequest) :
    List ((op : ClientOp) × op.Answer) → Except CallError RpcResponse → Prop
  | refused (reason : String) :
      CallSide request [⟨.connect, .error reason⟩] (.error (.connectionFailed reason))
  | oversized (large : maxRpcFrameSize < request.encodeCanonical.length) :
      CallSide request [⟨.connect, .ok ()⟩]
        (.error (.transport (.payloadTooLarge request.encodeCanonical.length)))
  | unwritten (small : request.encodeCanonical.length ≤ maxRpcFrameSize) (error : RpcError) :
      CallSide request [⟨.connect, .ok ()⟩,
        ⟨.write (lengthDelimited request.encodeCanonical), .error error⟩]
        (.error (.transport error))
  | written (small : request.encodeCanonical.length ≤ maxRpcFrameSize) (received : Bytes) :
      CallSide request [⟨.connect, .ok ()⟩,
        ⟨.write (lengthDelimited request.encodeCanonical), .ok ()⟩, ⟨.receive, received⟩]
        (RpcClient.readResponse received)

theorem RpcClient.callSide_of_yields {dialogue : List ((op : ClientOp) × op.Answer)}
    {outcome : Except CallError RpcResponse}
    (yields : (call request).run.Yields dialogue outcome) : CallSide request dialogue outcome := by
  obtain ⟨connected, _, rfl, opened⟩ := (Program.yields_perform_bind_iff _ _ _).mp yields
  obtain ⟨_, failed, rfl, rfl⟩ | ⟨_, succeeded, framing⟩ :=
    (Program.yields_settle_bind_iff _ _ _).mp opened
  · cases connected with
    | error reason => cases failed; exact .refused reason
    | ok => cases failed
  cases (mapError_eq_ok_iff _ _ _).mp succeeded
  obtain ⟨_, failed, rfl, rfl⟩ | ⟨frame, framed, writing⟩ :=
    (Program.yields_settle_bind_iff _ _ _).mp framing
  · cases framed : writeFrame request.encodeCanonical with
    | error error =>
        rw [framed] at failed
        cases failed
        obtain ⟨large, rfl⟩ := (writeFrame_eq_error_iff _ _).mp framed
        exact .oversized large
    | ok frame => rw [framed] at failed; cases failed
  obtain ⟨small, rfl⟩ := (writeFrame_eq_ok_iff _ _).mp ((mapError_eq_ok_iff _ _ _).mp framed)
  obtain ⟨written, _, rfl, sending⟩ := (Program.yields_perform_bind_iff _ _ _).mp writing
  obtain ⟨_, failed, rfl, rfl⟩ | ⟨_, succeeded, reading⟩ :=
    (Program.yields_settle_bind_iff _ _ _).mp sending
  · cases written with
    | error error => cases failed; exact .unwritten small error
    | ok => cases failed
  cases (mapError_eq_ok_iff _ _ _).mp succeeded
  obtain ⟨received, _, rfl, settled⟩ := (Program.yields_perform_bind_iff _ _ _).mp reading
  obtain ⟨rfl, rfl⟩ := (Program.yields_settle_iff _ _).mp settled
  exact .written small received

/-- What the server does with the part of a request that comes to it. -/
theorem handleConnection_part_cases (wellFormed : request.WellFormed)
    (small : request.encodeCanonical.length ≤ maxRpcFrameSize) {part : Bytes}
    (isPrefix : part <+: lengthDelimited request.encodeCanonical)
    {dialogue : List ((op : ConnectionOp) × op.Answer)} {result : Except ConnectionError Unit}
    (yields : (handleConnection part).run.Yields dialogue result) :
    part ≠ lengthDelimited request.encodeCanonical ∧ dialogue = [] ∨
      part = lengthDelimited request.encodeCanonical ∧ ∃ exchange : Exchange,
        exchange.request = request ∧
        (¬ exchange.Fits ∧ dialogue = [⟨.call (method exchange.request), exchange.answer⟩] ∨
          exchange.Fits ∧ ∃ written, dialogue = exchange.spoken written) := by
  by_cases whole : part = lengthDelimited request.encodeCanonical
  · subst whole
    refine Or.inr ⟨rfl, ?_⟩
    have read := readFrame_canonical.decode_encode small []
    rw [List.append_nil] at read
    obtain ⟨fault, handled, -⟩ | ⟨first, second, rfl, handled, continues⟩ :=
      (handleConnection_request_yields_iff read wellFormed).mp yields
    · obtain ⟨exchange, isRequest, ⟨large, rfl, -⟩ | ⟨fits, written, rfl, -⟩⟩ :=
        (handleRequest_yields_iff request).mp handled
      · exact ⟨exchange, isRequest, Or.inl ⟨large, rfl⟩⟩
      · exact ⟨exchange, isRequest, Or.inr ⟨fits, written, rfl⟩⟩
    · obtain ⟨exchange, isRequest, ⟨-, -, ⟨⟩⟩ | ⟨fits, written, rfl, -⟩⟩ :=
        (handleRequest_yields_iff request).mp handled
      rw [handleConnection_of_error readFrame_delimited.ended] at continues
      obtain ⟨rfl, -⟩ := (Program.yields_pure_iff _ _).mp continues
      exact ⟨exchange, isRequest, Or.inr ⟨fits, written, List.append_nil _⟩⟩
  · refine Or.inl ⟨whole, ?_⟩
    rw [handleConnection_of_error (readFrame_delimited.cut _ _ small isPrefix whole)] at yields
    exact ((Program.yields_pure_iff _ _).mp yields).1

/-- What a client understands of a part of a response. -/
theorem RpcClient.readResponse_part (exchange : Exchange) (fits : exchange.Fits)
    {received : Bytes} (isPrefix : received <+: exchange.frame) :
    received ≠ exchange.frame ∧
        readResponse received = .error (.transport (.io .unexpectedEof)) ∨
      received = exchange.frame ∧ readResponse received =
        (decodeCanonical exchange.response.encodeCanonical).mapError .serialization := by
  by_cases whole : received = exchange.frame
  · have read := readFrame_canonical.decode_encode fits []
    rw [List.append_nil] at read
    refine Or.inr ⟨whole, ?_⟩
    rw [whole, readResponse, Exchange.frame, read]
    rfl
  · refine Or.inl ⟨whole, ?_⟩
    rw [readResponse, readFrame_delimited.cut _ _ fits isPrefix whole]
    rfl

theorem ClientOp.sent_written (frame received : Bytes) :
    ClientOp.sent [⟨.connect, .ok ()⟩, ⟨.write frame, .ok ()⟩, ⟨.receive, received⟩] = frame := by
  simp [ClientOp.sent]

theorem ClientOp.received_written (frame received : Bytes) :
    ClientOp.received [⟨.connect, .ok ()⟩, ⟨.write frame, .ok ()⟩, ⟨.receive, received⟩] =
      received := by
  simp [ClientOp.received]

theorem Exchange.sent_spoken (exchange : Exchange) (written : Except RpcError Unit) :
    ConnectionOp.sent (exchange.spoken written) = exchange.frame :=
  List.append_nil _

/-- How a call ends, and what was asked of the handler by then. -/
inductive CallEnds (request : RpcRequest) :
    Except CallError RpcResponse → List ((method : HandlerCall) × method.Answer) → Prop
  | refused (reason : String) : CallEnds request (.error (.connectionFailed reason)) []
  | oversized (large : maxRpcFrameSize < request.encodeCanonical.length) :
      CallEnds request
        (.error (.transport (.payloadTooLarge request.encodeCanonical.length))) []
  | lost (error : RpcError) : CallEnds request (.error (.transport error)) []
  | unanswered (answer : (method request).Answer) (error : RpcError)
      (small : request.encodeCanonical.length ≤ maxRpcFrameSize) :
      CallEnds request (.error (.transport error)) [⟨method request, answer⟩]
  | answered (answer : (method request).Answer)
      (small : request.encodeCanonical.length ≤ maxRpcFrameSize)
      (fits : (respond (method request) answer).encodeCanonical.length ≤ maxRpcFrameSize) :
      CallEnds request ((decodeCanonical
        (respond (method request) answer).encodeCanonical).mapError .serialization)
        [⟨method request, answer⟩]

/-- A request that does not fit into a frame is not made. -/
theorem CallEnds.calls_eq_nil {result : Except CallError RpcResponse}
    {calls : List ((method : HandlerCall) × method.Answer)} (ends : CallEnds request result calls)
    (large : maxRpcFrameSize < request.encodeCanonical.length) : calls = [] := by
  cases ends with
  | unanswered answer error small => exact absurd small (Nat.not_le.mpr large)
  | answered answer small fits => exact absurd small (Nat.not_le.mpr large)
  | _ => rfl

theorem CallSide.ends {clientSide : List ((op : ClientOp) × op.Answer)}
    {outcome : Except CallError RpcResponse} (side : CallSide request clientSide outcome)
    (wellFormed : request.WellFormed) {arrived : Bytes}
    (arrives : arrived <+: ClientOp.sent clientSide)
    {serverSide : List ((op : ConnectionOp) × op.Answer)} {ended : Except ConnectionError Unit}
    (serves : (handleConnection arrived).run.Yields serverSide ended)
    (receives : ClientOp.received clientSide <+: ConnectionOp.sent serverSide) :
    CallEnds request outcome (ConnectionOp.calls serverSide) := by
  have silent : arrived = [] → serverSide = [] := by
    rintro rfl
    rw [handleConnection_of_error readFrame_delimited.ended] at serves
    exact ((Program.yields_pure_iff _ _).mp serves).1
  cases side with
  | refused reason => rw [silent (List.prefix_nil.mp arrives)]; exact .refused reason
  | oversized large => rw [silent (List.prefix_nil.mp arrives)]; exact .oversized large
  | unwritten small error =>
      have sent : ClientOp.sent [⟨.connect, .ok ()⟩,
          ⟨.write (lengthDelimited request.encodeCanonical), .error error⟩] =
        lengthDelimited request.encodeCanonical := by simp [ClientOp.sent]
      rw [sent] at arrives
      obtain ⟨-, rfl⟩ | ⟨-, exchange, rfl, ⟨-, rfl⟩ | ⟨-, written, rfl⟩⟩ :=
        handleConnection_part_cases wellFormed small arrives serves
      · exact .lost error
      · exact .unanswered exchange.answer error small
      · exact .unanswered exchange.answer error small
  | written small received =>
      rw [ClientOp.sent_written] at arrives
      rw [ClientOp.received_written] at receives
      have eof : received = [] →
          RpcClient.readResponse received = .error (.transport (.io .unexpectedEof)) := by
        rintro rfl
        rfl
      obtain ⟨-, rfl⟩ | ⟨-, exchange, rfl, ⟨-, rfl⟩ | ⟨fits, written, rfl⟩⟩ :=
        handleConnection_part_cases wellFormed small arrives serves
      · rw [eof (List.prefix_nil.mp receives)]
        exact .lost _
      · rw [eof (List.prefix_nil.mp receives)]
        exact .unanswered exchange.answer _ small
      · rw [exchange.sent_spoken written] at receives
        obtain ⟨-, eof⟩ | ⟨-, understood⟩ := RpcClient.readResponse_part exchange fits receives
        · rw [eof]
          exact .unanswered exchange.answer _ small
        · rw [understood]
          exact .answered exchange.answer small fits

end Sides

section Calls

open RpcServer RpcClient

variable {request : RpcRequest} {Value : Type} {expected : RpcResponse → Option Value}

/-- The end of a typed call is that of its call, read as the expected response. -/
theorem Session.ends (wellFormed : request.WellFormed) (session : Session (do
      let response ← call request
      settle (expect expected response))) :
    ∃ result, CallEnds request result session.calls ∧
      (result >>= expect expected) = session.outcome := by
  obtain ⟨result, returned, same⟩ :=
    (Program.yields_bind_settle_iff _ _ _).mp session.returns
  exact ⟨result, (callSide_of_yields returned).ends wellFormed session.arrives session.serves
    session.receives, same⟩

/-- Responses without a template are well formed if they fit into a frame. -/
theorem RpcResponse.wellFormed_of_fits {response : RpcResponse}
    (fits : response.encodeCanonical.length ≤ maxRpcFrameSize)
    (template : ∀ tmpl, response = .blockTemplate tmpl → tmpl.WellFormed) :
    response.WellFormed := by
  have limit : maxRpcFrameSize < 2 ^ 32 := by decide
  cases response with
  | blockTemplate tmpl => exact template tmpl rfl
  | submitBlock result =>
      cases result with
      | accepted => exact trivial
      | rejected reason =>
          simp [RpcResponse.encodeCanonical, RpcResponse.payload,
            Rpc.SubmitResult.encodeCanonical, Rpc.SubmitResult.payload, encodeString,
            encodeVecBytes] at fits
          simp only [RpcResponse.WellFormed, Rpc.SubmitResult.WellFormed]
          omega
  | error err =>
      simp [RpcResponse.encodeCanonical, RpcResponse.payload, encodeString,
        encodeVecBytes] at fits
      simp only [RpcResponse.WellFormed]
      omega
  | _ => exact trivial

theorem decode_of_fits {response : RpcResponse}
    (fits : response.encodeCanonical.length ≤ maxRpcFrameSize)
    (template : ∀ tmpl, response = .blockTemplate tmpl → tmpl.WellFormed) :
    (decodeCanonical response.encodeCanonical : Except CodecError RpcResponse) = .ok response :=
  (decodeCanonical_eq_ok_iff RpcResponse.canonical _ _).mpr
    ⟨RpcResponse.wellFormed_of_fits fits template, rfl⟩

/-- What the client makes of the handler's answer. -/
def RpcClient.rejecting (answer : Except String Value) : Except CallError Value :=
  answer.mapError .nodeRejected

/-- How a typed call of a method may end, whatever is lost on the way. -/
def AtMostOnce (method : HandlerCall) (read : method.Answer → Except CallError Value)
    (outcome : Except CallError Value) (calls : List ((method : HandlerCall) × method.Answer)) :
    Prop :=
  (calls = [] ∨ ∃ answer, calls = [⟨method, answer⟩]) ∧
    ((∃ reason, outcome = .error (.connectionFailed reason) ∧ calls = []) ∨
      (∃ error, outcome = .error (.transport error)) ∨
      ∃ answer, calls = [⟨method, answer⟩] ∧ outcome = read answer)

theorem AtMostOnce.of_ends {read : (method request).Answer → Except CallError Value}
    {result : Except CallError RpcResponse}
    {calls : List ((method : HandlerCall) × method.Answer)} (ends : CallEnds request result calls)
    (template : ∀ answer, calls = [⟨method request, answer⟩] → ∀ tmpl,
      respond (method request) answer = .blockTemplate tmpl → tmpl.WellFormed)
    (reads : ∀ answer, expect expected (respond (method request) answer) = read answer) :
    AtMostOnce (method request) read (result >>= expect expected) calls := by
  cases ends with
  | refused reason => exact ⟨Or.inl rfl, Or.inl ⟨reason, rfl, rfl⟩⟩
  | oversized large => exact ⟨Or.inl rfl, Or.inr (Or.inl ⟨_, rfl⟩)⟩
  | lost error => exact ⟨Or.inl rfl, Or.inr (Or.inl ⟨error, rfl⟩)⟩
  | unanswered answer error small =>
      exact ⟨Or.inr ⟨answer, rfl⟩, Or.inr (Or.inl ⟨error, rfl⟩)⟩
  | answered answer small fits =>
      refine ⟨Or.inr ⟨answer, rfl⟩, Or.inr (Or.inr ⟨answer, rfl, ?_⟩)⟩
      rw [decode_of_fits fits (template answer rfl), ← reads answer]
      rfl

/-- Nothing is lost: the client connects and writes, and all bytes arrive. -/
structure Session.Lossless {client : ClientM Value} (session : Session client) : Prop where
  connects : ∀ answer : ClientOp.connect.Answer,
    ⟨.connect, answer⟩ ∈ session.clientSide → answer = .ok ()
  writes : ∀ frame (answer : (ClientOp.write frame).Answer),
    ⟨.write frame, answer⟩ ∈ session.clientSide → answer = .ok ()
  arrived : session.arrived = ClientOp.sent session.clientSide
  received : ClientOp.received session.clientSide = ConnectionOp.sent session.serverSide

theorem RpcClient.call_yields_written
    (small : request.encodeCanonical.length ≤ maxRpcFrameSize) (received : Bytes) :
    (call request).run.Yields [⟨.connect, .ok ()⟩,
      ⟨.write (lengthDelimited request.encodeCanonical), .ok ()⟩, ⟨.receive, received⟩]
      (readResponse received) := by
  have framed := (writeFrame_eq_ok_iff _ _).mpr ⟨small, rfl⟩
  rw [call, Program.yields_perform_bind_iff]
  refine ⟨.ok (), _, rfl, (Program.yields_settle_bind_iff _ _ _).mpr (Or.inr ⟨(), rfl, ?_⟩)⟩
  rw [framed]
  refine (Program.yields_settle_bind_iff _ _ _).mpr (Or.inr ⟨_, rfl, ?_⟩)
  rw [Program.yields_perform_bind_iff]
  refine ⟨.ok (), _, rfl, (Program.yields_settle_bind_iff _ _ _).mpr (Or.inr ⟨(), rfl, ?_⟩)⟩
  rw [Program.yields_perform_bind_iff]
  exact ⟨received, [], rfl, (Program.yields_settle_iff _ _).mpr ⟨rfl, rfl⟩⟩

/-- The session in which an exchange comes about without any loss. -/
def Session.complete (expected : RpcResponse → Option Value) (exchange : Exchange)
    (isAnswered : exchange.Answered) : Session (do
      let response ← call exchange.request
      settle (expect expected response)) where
  outcome := readResponse exchange.frame >>= expect expected
  clientSide := [⟨.connect, .ok ()⟩, ⟨.write exchange.requestFrame, .ok ()⟩,
    ⟨.receive, exchange.frame⟩]
  serverSide := exchange.spoken (.ok ())
  ended := .ok ()
  arrived := exchange.requestFrame
  returns := (Program.yields_bind_settle_iff _ _ _).mpr
    ⟨_, call_yields_written isAnswered.2.1 _, rfl⟩
  arrives := by simp only [ClientOp.sent_written, List.prefix_refl]
  serves := by
    rw [handleConnection_yields_iff]
    exact ⟨[exchange], [], [], List.forall_mem_singleton.mpr isAnswered,
      by simp, by simp, .closed readFrame_delimited.ended⟩
  receives := by simp only [ClientOp.received_written, exchange.sent_spoken, List.prefix_refl]

theorem Session.lossless_complete (expected : RpcResponse → Option Value) (exchange : Exchange)
    (isAnswered : exchange.Answered) :
    (Session.complete expected exchange isAnswered).Lossless where
  connects := by
    intro answer member
    simpa [Session.complete] using member
  writes := by
    intro frame answer member
    simp only [Session.complete, List.mem_cons, reduceCtorEq, Sigma.mk.injEq, false_and, false_or,
      List.not_mem_nil, or_false, ClientOp.write.injEq] at member
    obtain ⟨rfl, same⟩ := member
    exact eq_of_heq same
  arrived := (ClientOp.sent_written _ _).symm
  received := by rw [Session.complete, ClientOp.received_written, exchange.sent_spoken]

/-- Where nothing is lost, the request is answered, and the answer comes to the client if its
response fits into a frame. -/
theorem Session.Lossless.answered (wellFormed : request.WellFormed) {session : Session (do
      let response ← call request
      settle (expect expected response))} (lossless : session.Lossless)
    (small : request.encodeCanonical.length ≤ maxRpcFrameSize) :
    ∃ answer, session.calls = [⟨method request, answer⟩] ∧
      ((respond (method request) answer).encodeCanonical.length ≤ maxRpcFrameSize →
        (∀ tmpl, respond (method request) answer = .blockTemplate tmpl → tmpl.WellFormed) →
        session.outcome = expect expected (respond (method request) answer)) := by
  obtain ⟨result, returned, same⟩ :=
    (Program.yields_bind_settle_iff _ _ _).mp session.returns
  have serves := session.serves
  rw [lossless.arrived] at serves
  have connects := lossless.connects
  have writes := lossless.writes
  have received := lossless.received
  rw [Session.calls]
  generalize session.clientSide = clientSide at *
  generalize session.serverSide = serverSide at *
  cases callSide_of_yields returned with
  | refused reason => cases connects _ List.mem_cons_self
  | oversized large => exact absurd small (Nat.not_le.mpr large)
  | unwritten small error => cases writes _ _ (List.mem_cons_of_mem _ List.mem_cons_self)
  | written small bytes =>
      rw [ClientOp.sent_written] at serves
      rw [ClientOp.received_written] at received
      obtain ⟨partly, -⟩ | ⟨-, exchange, rfl, ⟨large, rfl⟩ | ⟨fits, written, rfl⟩⟩ :=
        handleConnection_part_cases wellFormed small (List.prefix_refl _) serves
      · exact absurd rfl partly
      · exact ⟨exchange.answer, rfl, fun fits => absurd fits large⟩
      · refine ⟨exchange.answer, rfl, fun _ template => ?_⟩
        rw [exchange.sent_spoken written] at received
        have isWhole : bytes <+: exchange.frame := received ▸ List.prefix_refl _
        obtain ⟨partly, -⟩ | ⟨-, understood⟩ :=
          readResponse_part exchange fits isWhole
        · exact absurd received partly
        · rw [← same, understood, decode_of_fits fits template]
          rfl

/-- A submission over any connection asks the handler at most once, for this block.  If
the client gets a result or a refusal, it is the handler's, and if nothing is lost it
gets it. -/
theorem submit_block_at_most_once {block : Block} (wellFormed : block.WellFormed)
    (session : Session (submitBlock block)) :
    AtMostOnce (.submitBlock block) rejecting session.outcome session.calls ∧
      (maxRpcFrameSize < (RpcRequest.submitBlock block).encodeCanonical.length →
        session.calls = []) ∧
      (session.Lossless →
        (RpcRequest.submitBlock block).encodeCanonical.length ≤ maxRpcFrameSize →
        ∃ answer, session.calls = [⟨.submitBlock block, answer⟩] ∧
          ((response .submitBlock answer).encodeCanonical.length ≤ maxRpcFrameSize →
            session.outcome = rejecting answer)) := by
  have reads : ∀ answer : HandlerCall.Answer (.submitBlock block),
      expect submitBlock? (respond (.submitBlock block) answer) = rejecting answer := by
    intro answer
    cases answer <;> rfl
  have noTemplate : ∀ (answer : HandlerCall.Answer (.submitBlock block)) tmpl,
      respond (.submitBlock block) answer ≠ .blockTemplate tmpl := by
    intro answer tmpl
    cases answer <;> nofun
  have requestWellFormed : (RpcRequest.submitBlock block).WellFormed := wellFormed
  obtain ⟨result, ends, same⟩ := session.ends requestWellFormed
  refine ⟨?_, ends.calls_eq_nil, ?_⟩
  · rw [← same]
    exact AtMostOnce.of_ends ends
      (fun answer _ tmpl isTemplate => absurd isTemplate (noTemplate answer tmpl)) reads
  · intro lossless small
    obtain ⟨answer, called, fitting⟩ := lossless.answered requestWellFormed small
    refine ⟨answer, called, fun fits => ?_⟩
    rw [fitting fits fun tmpl isTemplate => absurd isTemplate (noTemplate answer tmpl)]
    exact reads answer

end Calls

namespace Sample

open RpcServer RpcClient

/-! A submission that the node rejects. -/

def emptied : Block where
  header :=
    { version := 1
      prevBlockHash := Hash256.zero
      merkleRoot := Hash256.zero
      timestamp := 1773446400
      bits := 0x1f00ffff
      nonce := 42
      height := 7 }
  transactions := []

def rejection : Exchange := ⟨.submitBlock emptied, .ok (.rejected "stale")⟩

theorem answered_rejection : rejection.Answered := by
  refine ⟨?_, ?_, ?_⟩
  · exact (by decide : emptied.WellFormed)
  · decide
  · unfold Exchange.Fits
    decide

def submission : Session (RpcClient.submitBlock emptied) :=
  .complete submitBlock? rejection answered_rejection

theorem submit_block_at_most_once_rejected :
    ∃ answer, submission.calls = [⟨.submitBlock emptied, answer⟩] ∧
      ((response .submitBlock answer).encodeCanonical.length ≤ maxRpcFrameSize →
        submission.outcome = rejecting answer) :=
  (submit_block_at_most_once (by decide) submission).2.2
    (Session.lossless_complete submitBlock? rejection answered_rejection) answered_rejection.2.1

end Sample

end Aurion
