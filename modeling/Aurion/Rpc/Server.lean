import Aurion.Foundation.Dialogue
import Aurion.Rpc.Frame

/-!
# Connections of the RPC server

The server reads a frame, decodes a request, calls the handler and writes a frame
with the response, until the connection ends or something fails.  A connection is
a program that calls the handler and writes to the socket; what the handler
answers is left open, so other connections may do anything in between.
-/

namespace Aurion

open Foundation

section Definition

/-- The methods of a `NodeRpcHandler`. -/
inductive HandlerCall
  | getBlockTemplate (payoutAddress : Bytes)
  | submitBlock (block : Block)
  | sendRawTx (tx : Transaction)
  | getTipStatus

/-- The pool's size is a machine word of 64 bits. -/
abbrev HandlerCall.Answer : HandlerCall → Type
  | .getBlockTemplate _ => Except String BlockTemplate
  | .submitBlock _ => Except String Rpc.SubmitResult
  | .sendRawTx _ => Except String Hash256
  | .getTipStatus => Except String (UInt64 × Hash256 × UInt64)

/-- What a connection does: it calls the handler, and it writes whole frames. -/
inductive ConnectionOp
  | call (method : HandlerCall)
  | write (frame : Bytes)

abbrev ConnectionOp.Answer : ConnectionOp → Type
  | .call method => method.Answer
  | .write _ => Except RpcError Unit

/-- The errors by which a connection ends. -/
inductive ConnectionError
  | frame (error : RpcError)
  | serialization (error : CodecError)

abbrev ServerM (Value : Type) :=
  ExceptT ConnectionError (Program ConnectionOp ConnectionOp.Answer) Value

namespace RpcServer

/-- The handler's value or its error as a response. -/
def response {Value : Type} (build : Value → RpcResponse) : Except String Value → RpcResponse
  | .ok value => build value
  | .error err => .error err

/-- The method that answers a request. -/
def method : RpcRequest → HandlerCall
  | .getBlockTemplate payoutAddress => .getBlockTemplate payoutAddress
  | .submitBlock block => .submitBlock block
  | .sendRawTransaction tx => .sendRawTx tx
  | .getTipStatus => .getTipStatus

/-- The response that the answer of a method becomes. -/
def respond : (method : HandlerCall) → method.Answer → RpcResponse
  | .getBlockTemplate _ => response .blockTemplate
  | .submitBlock _ => response .submitBlock
  | .sendRawTx _ => response .transactionAccepted
  | .getTipStatus => response fun (height, bestBlockHash, mempoolSize) =>
      .tipStatus height bestBlockHash mempoolSize

def writeAll (frame : Bytes) :
    Program ConnectionOp ConnectionOp.Answer (Except RpcError Unit) :=
  Program.perform (ConnectionOp.write frame)

def sendFrame (payload : Bytes) : ServerM Unit := do
  let frame ← settle ((writeFrame payload).mapError .frame)
  let written ← ExceptT.lift (writeAll frame)
  settle (written.mapError .frame)

def handleRequest (request : RpcRequest) : ServerM Unit := do
  let answer ← ExceptT.lift (Program.perform (.call (method request)))
  sendFrame (respond (method request) answer).encodeCanonical

def handleConnection (connection : Bytes) : ServerM Unit :=
  match _read : readFrame connection with
  | .error (.io .unexpectedEof) => pure ()
  | .error error => throw (.frame error)
  | .ok (frameBytes, rest) => do
      let request ← settle ((decodeCanonical frameBytes).mapError .serialization)
      handleRequest request
      handleConnection rest
termination_by connection.length
decreasing_by exact readFrame_delimited.consumes connection frameBytes rest _read

end RpcServer

end Definition

section Behaviour

open RpcServer

/-- A request that was answered. -/
structure Exchange where
  request : RpcRequest
  answer : (method request).Answer

namespace Exchange

def response (exchange : Exchange) : RpcResponse :=
  respond (method exchange.request) exchange.answer

/-- The frame of the response. -/
def frame (exchange : Exchange) : Bytes := lengthDelimited exchange.response.encodeCanonical

/-- The call of an exchange, and what came of writing its frame. -/
def spoken (exchange : Exchange) (written : Except RpcError Unit) :
    List ((op : ConnectionOp) × op.Answer) :=
  [⟨.call (method exchange.request), exchange.answer⟩, ⟨.write exchange.frame, written⟩]

/-- The response is small enough for a frame. -/
def Fits (exchange : Exchange) : Prop :=
  exchange.response.encodeCanonical.length ≤ maxRpcFrameSize

end Exchange

/-- How a connection ends: the bytes that were not answered, what was still said
about them, and the result. -/
inductive ConnectionEnds : Bytes → List ((op : ConnectionOp) × op.Answer) →
    Except ConnectionError Unit → Prop
  | closed {rest : Bytes} (read : readFrame rest = .error (.io .unexpectedEof)) :
      ConnectionEnds rest [] (.ok ())
  | oversized {rest : Bytes} {len : Nat} (read : readFrame rest = .error (.payloadTooLarge len)) :
      ConnectionEnds rest [] (.error (.frame (.payloadTooLarge len)))
  | undecodable {rest frameBytes behind : Bytes} {error : CodecError}
      (read : readFrame rest = .ok (frameBytes, behind))
      (decoded : (decodeCanonical frameBytes : Except CodecError RpcRequest) = .error error) :
      ConnectionEnds rest [] (.error (.serialization error))
  | unframed {rest behind : Bytes} (exchange : Exchange)
      (read : readFrame rest = .ok (exchange.request.encodeCanonical, behind))
      (wellFormed : exchange.request.WellFormed) (large : ¬ exchange.Fits) :
      ConnectionEnds rest [⟨.call (method exchange.request), exchange.answer⟩]
        (.error (.frame (.payloadTooLarge exchange.response.encodeCanonical.length)))
  | unwritten {rest behind : Bytes} (exchange : Exchange) {error : RpcError}
      (read : readFrame rest = .ok (exchange.request.encodeCanonical, behind))
      (wellFormed : exchange.request.WellFormed) (fits : exchange.Fits) :
      ConnectionEnds rest (exchange.spoken (.error error)) (.error (.frame error))

variable {dialogue : List ((op : ConnectionOp) × op.Answer)}
  {result : Except ConnectionError Unit}

theorem writeFrame_eq_error_iff (payload : Bytes) (error : RpcError) :
    writeFrame payload = .error error ↔
      maxRpcFrameSize < payload.length ∧ .payloadTooLarge payload.length = error := by
  unfold writeFrame ensure
  split
  next small => simp [small, pure, Except.pure]
  next large => simp [Nat.lt_of_not_le large]

theorem RpcServer.sendFrame_yields_iff (payload : Bytes) :
    (sendFrame payload).run.Yields dialogue result ↔
      (maxRpcFrameSize < payload.length ∧ dialogue = [] ∧
        result = .error (.frame (.payloadTooLarge payload.length))) ∨
      payload.length ≤ maxRpcFrameSize ∧ ∃ written,
        dialogue = [⟨.write (lengthDelimited payload), written⟩] ∧
          result = written.mapError .frame := by
  rw [sendFrame, Program.yields_settle_bind_iff]
  have written (frame : Bytes) : (do
      let written ← ExceptT.lift (writeAll frame)
      settle (written.mapError .frame) : ServerM Unit).run.Yields dialogue result ↔
        ∃ written, dialogue = [⟨.write frame, written⟩] ∧ written.mapError .frame = result := by
    rw [writeAll, Program.yields_perform_bind_iff]
    simp only [Program.yields_settle_iff]
    constructor
    · intro found
      obtain ⟨answer, _, rfl, rfl, same⟩ := found
      exact ⟨answer, rfl, same⟩
    · intro found
      obtain ⟨answer, rfl, same⟩ := found
      exact ⟨answer, [], rfl, rfl, same⟩
  simp only [written, mapError_eq_ok_iff, writeFrame_eq_ok_iff]
  cases framed : writeFrame payload with
  | error error =>
      obtain ⟨large, rfl⟩ := (writeFrame_eq_error_iff _ _).mp framed
      simp [Except.mapError, large, Nat.not_le.mpr large, eq_comm]
  | ok frame =>
      obtain ⟨small, rfl⟩ := (writeFrame_eq_ok_iff _ _).mp framed
      simp [Except.mapError, small, Nat.not_lt.mpr small, eq_comm]

/-- A request is answered by one call and one frame, if its response fits into one. -/
theorem RpcServer.handleRequest_yields_iff (request : RpcRequest) :
    (handleRequest request).run.Yields dialogue result ↔
      ∃ exchange : Exchange, exchange.request = request ∧
        ((¬ exchange.Fits ∧ dialogue = [⟨.call (method exchange.request), exchange.answer⟩] ∧
          result = .error
            (.frame (.payloadTooLarge exchange.response.encodeCanonical.length))) ∨
        exchange.Fits ∧ ∃ written, dialogue = exchange.spoken written ∧
          result = written.mapError .frame) := by
  rw [handleRequest, Program.yields_perform_bind_iff]
  simp only [sendFrame_yields_iff]
  constructor
  · intro found
    obtain ⟨answer, rest, rfl, sent⟩ := found
    refine ⟨⟨request, answer⟩, rfl, ?_⟩
    obtain ⟨large, rfl, rfl⟩ | ⟨small, written, rfl, rfl⟩ := sent
    · exact Or.inl ⟨Nat.not_le.mpr large, rfl, rfl⟩
    · exact Or.inr ⟨small, written, rfl, rfl⟩
  · intro found
    obtain ⟨⟨_, answer⟩, rfl, ⟨large, rfl, rfl⟩ | ⟨small, written, rfl, rfl⟩⟩ := found
    · exact ⟨answer, [], rfl, Or.inl ⟨Nat.not_le.mp large, rfl, rfl⟩⟩
    · exact ⟨answer, _, rfl, Or.inr ⟨small, written, rfl, rfl⟩⟩

theorem handleConnection_of_error {connection : Bytes} {error : RpcError}
    (read : readFrame connection = .error error) :
    handleConnection connection =
      match error with
      | .io .unexpectedEof => pure ()
      | error => throw (.frame error) := by
  rw [handleConnection]
  split
  next found => rw [read] at found; cases found; rfl
  next error' other found =>
    rw [read] at found
    cases found
    split
    next => exact absurd rfl other
    next => rfl
  next found => rw [read] at found; cases found

theorem handleConnection_of_ok {connection frameBytes rest : Bytes}
    (read : readFrame connection = .ok (frameBytes, rest)) :
    handleConnection connection = (do
      let request ← settle ((decodeCanonical frameBytes).mapError .serialization)
      handleRequest request
      handleConnection rest) := by
  rw [handleConnection]
  split
  next found => rw [read] at found; cases found
  next found => rw [read] at found; cases found
  next found => rw [read] at found; cases found; rfl

/-- The requests at the front of a connection that were answered. -/
def Exchange.Answered (exchange : Exchange) : Prop :=
  exchange.request.WellFormed ∧
    exchange.request.encodeCanonical.length ≤ maxRpcFrameSize ∧ exchange.Fits

/-- The frame of the request. -/
def Exchange.requestFrame (exchange : Exchange) : Bytes :=
  lengthDelimited exchange.request.encodeCanonical

/-- A connection with a readable request at its front. -/
theorem handleConnection_request_yields_iff {connection rest : Bytes} {request : RpcRequest}
    (read : readFrame connection = .ok (request.encodeCanonical, rest))
    (wellFormed : request.WellFormed) :
    (handleConnection connection).run.Yields dialogue result ↔
      (∃ fault, (handleRequest request).run.Yields dialogue (.error fault) ∧
        .error fault = result) ∨
      ∃ first second, dialogue = first ++ second ∧
        (handleRequest request).run.Yields first (.ok ()) ∧
          (handleConnection rest).run.Yields second result := by
  have decoded : (decodeCanonical request.encodeCanonical : Except CodecError RpcRequest) =
      .ok request :=
    (decodeCanonical_eq_ok_iff RpcRequest.canonical _ _).mpr ⟨wellFormed, rfl⟩
  rw [handleConnection_of_ok read, decoded, Program.yields_settle_bind_iff]
  simp only [Except.mapError, reduceCtorEq, false_and, exists_false, Except.ok.injEq,
    exists_eq_left', false_or, Program.yields_except_bind_iff]
  constructor
  · intro found
    obtain failed | ⟨first, second, _, split, handled, continues⟩ := found
    · exact Or.inl failed
    · exact Or.inr ⟨first, second, split, handled, continues⟩
  · intro found
    obtain failed | ⟨first, second, split, handled, continues⟩ := found
    · exact Or.inl failed
    · exact Or.inr ⟨first, second, (), split, handled, continues⟩

/-- How a request that is read at the front of a connection can end it. -/
theorem ends_of_handleRequest {connection rest : Bytes} {request : RpcRequest}
    (read : readFrame connection = .ok (request.encodeCanonical, rest))
    (wellFormed : request.WellFormed) {fault : ConnectionError}
    (yields : (handleRequest request).run.Yields dialogue (.error fault)) :
    ConnectionEnds connection dialogue (.error fault) := by
  obtain ⟨exchange, rfl, ⟨large, rfl, ⟨⟩⟩ | ⟨fits, written, rfl, same⟩⟩ :=
    (handleRequest_yields_iff request).mp yields
  · exact .unframed exchange read wellFormed large
  · cases written with
    | ok => cases same
    | error error =>
        cases same
        exact .unwritten exchange read wellFormed fits

theorem readFrame_request (exchange : Exchange) (answered : exchange.Answered) (rest : Bytes) :
    readFrame (exchange.requestFrame ++ rest) = .ok (exchange.request.encodeCanonical, rest) :=
  readFrame_canonical.decode_encode answered.2.1 rest

/-- What a connection says: complete exchanges for the requests at its front, and
then one of its ends. -/
theorem handleConnection_yields_iff (connection : Bytes) :
    (handleConnection connection).run.Yields dialogue result ↔
      ∃ (exchanges : List Exchange) (rest : Bytes) (last : List ((op : ConnectionOp) × op.Answer)),
        (∀ exchange ∈ exchanges, exchange.Answered) ∧
        connection = exchanges.flatMap Exchange.requestFrame ++ rest ∧
        dialogue = exchanges.flatMap (fun exchange => exchange.spoken (.ok ())) ++ last ∧
        ConnectionEnds rest last result := by
  constructor
  · intro yields
    induction size : connection.length using Nat.strongRecOn generalizing connection dialogue with
    | _ size inductionHypothesis =>
        have ended (ends : ConnectionEnds connection dialogue result) :
            ∃ (exchanges : List Exchange) (rest : Bytes)
              (last : List ((op : ConnectionOp) × op.Answer)),
              (∀ exchange ∈ exchanges, exchange.Answered) ∧
              connection = exchanges.flatMap Exchange.requestFrame ++ rest ∧
              dialogue = exchanges.flatMap (fun exchange => exchange.spoken (.ok ())) ++ last ∧
              ConnectionEnds rest last result :=
          ⟨[], connection, dialogue, nofun, rfl, rfl, ends⟩
        cases read : readFrame connection with
        | error error =>
            rw [handleConnection_of_error read] at yields
            cases error with
            | io kind =>
                cases kind
                obtain ⟨rfl, rfl⟩ := (Program.yields_pure_iff _ _).mp yields
                exact ended (.closed read)
            | payloadTooLarge len =>
                obtain ⟨rfl, rfl⟩ := (Program.yields_pure_iff _ _).mp yields
                exact ended (.oversized read)
        | ok found =>
            obtain ⟨frameBytes, rest⟩ := found
            have shorter := readFrame_delimited.consumes _ _ _ read
            cases decoded : (decodeCanonical frameBytes : Except CodecError RpcRequest) with
            | error error =>
                rw [handleConnection_of_ok read, decoded, Program.yields_settle_bind_iff] at yields
                obtain ⟨_, ⟨⟩, rfl, rfl⟩ | ⟨_, ⟨⟩, -⟩ := yields
                exact ended (.undecodable read decoded)
            | ok request =>
                obtain ⟨wellFormed, rfl⟩ :=
                  (decodeCanonical_eq_ok_iff RpcRequest.canonical _ _).mp decoded
                obtain ⟨small, rfl⟩ := (readFrame_canonical.eq_ok_iff _ _ _).mp read
                obtain ⟨fault, failed, rfl⟩ | ⟨first, second, rfl, handled, continues⟩ :=
                  (handleConnection_request_yields_iff read wellFormed).mp yields
                · exact ended (ends_of_handleRequest read wellFormed failed)
                · obtain ⟨exchange, rfl, ⟨-, -, ⟨⟩⟩ | ⟨fits, written, rfl, same⟩⟩ :=
                    (handleRequest_yields_iff _).mp handled
                  obtain rfl := (mapError_eq_ok_iff _ _ _).mp same.symm
                  obtain ⟨exchanges, rest', last, answered, rfl, rfl, ends⟩ :=
                    inductionHypothesis _ (size ▸ shorter) rest continues rfl
                  exact ⟨exchange :: exchanges, rest', last,
                    List.forall_mem_cons.mpr ⟨⟨wellFormed, small, fits⟩, answered⟩,
                    (List.append_assoc _ _ _).symm, (List.append_assoc _ _ _).symm, ends⟩
  · intro found
    obtain ⟨exchanges, rest, last, answered, rfl, rfl, ends⟩ := found
    induction exchanges with
    | nil =>
        rw [List.flatMap_nil, List.flatMap_nil, List.nil_append, List.nil_append]
        cases ends with
        | closed read =>
            rw [handleConnection_of_error read]
            exact (Program.yields_pure_iff _ _).mpr ⟨rfl, rfl⟩
        | oversized read =>
            rw [handleConnection_of_error read]
            exact (Program.yields_pure_iff _ _).mpr ⟨rfl, rfl⟩
        | undecodable read decoded =>
            rw [handleConnection_of_ok read, decoded, Program.yields_settle_bind_iff]
            exact Or.inl ⟨_, rfl, rfl, rfl⟩
        | unframed exchange read wellFormed large =>
            exact (handleConnection_request_yields_iff read wellFormed).mpr (Or.inl ⟨_,
              (handleRequest_yields_iff _).mpr ⟨exchange, rfl, Or.inl ⟨large, rfl, rfl⟩⟩, rfl⟩)
        | unwritten exchange read wellFormed fits =>
            exact (handleConnection_request_yields_iff read wellFormed).mpr (Or.inl ⟨_,
              (handleRequest_yields_iff _).mpr ⟨exchange, rfl, Or.inr ⟨fits, _, rfl, rfl⟩⟩, rfl⟩)
    | cons exchange exchanges inductionHypothesis =>
        rw [List.forall_mem_cons] at answered
        obtain ⟨isAnswered, answered⟩ := answered
        rw [List.flatMap_cons, List.flatMap_cons, List.append_assoc, List.append_assoc]
        refine (handleConnection_request_yields_iff (readFrame_request exchange isAnswered _)
          isAnswered.1).mpr (Or.inr ⟨_, _, rfl, ?_, inductionHypothesis answered⟩)
        exact (handleRequest_yields_iff _).mpr
          ⟨exchange, rfl, Or.inr ⟨isAnswered.2.2, .ok (), rfl, rfl⟩⟩

end Behaviour

section Streams

open RpcServer

theorem Exchange.flatMap_requestFrame (exchanges : List Exchange) :
    exchanges.flatMap Exchange.requestFrame =
      (exchanges.map fun exchange => exchange.request.encodeCanonical).flatMap
        lengthDelimited := by
  rw [List.flatMap_map]
  rfl

theorem Exchange.payloads_small {exchanges : List Exchange}
    (answered : ∀ exchange ∈ exchanges, exchange.Answered) :
    ∀ payload ∈ exchanges.map fun exchange => exchange.request.encodeCanonical,
      payload.length ≤ maxRpcFrameSize := by
  rw [List.forall_mem_map]
  exact fun exchange isExchange => (answered exchange isExchange).2.1

theorem requests_eq_of_payloads_eq {left right : List RpcRequest}
    (leftValid : ∀ request ∈ left, request.WellFormed)
    (rightValid : ∀ request ∈ right, request.WellFormed)
    (same : left.map RpcRequest.encodeCanonical = right.map RpcRequest.encodeCanonical) :
    left = right := by
  induction left generalizing right with
  | nil => exact (List.map_eq_nil_iff.mp same.symm).symm
  | cons request left inductionHypothesis =>
      cases right with
      | nil => cases same
      | cons other right =>
          rw [List.forall_mem_cons] at leftValid rightValid
          obtain ⟨head, tail⟩ := List.cons.inj same
          rw [RpcRequest.canonical.encode_injective leftValid.1 rightValid.1 head,
            inductionHypothesis leftValid.2 rightValid.2 tail]

/-- Where the stream of a client's requests ends decides which of them are served:
those that arrive whole, each by one call and one frame, in their order.  This is
all that is said on a connection that ends without an error. -/
theorem requests_served_in_order (requests : List RpcRequest)
    (valid : ∀ request ∈ requests, request.WellFormed ∧
      request.encodeCanonical.length ≤ maxRpcFrameSize)
    {part : Bytes} (isPrefix : part <+:
      requests.flatMap fun request => lengthDelimited request.encodeCanonical) :
    ∃ count ≤ requests.length,
      (∀ sent ≤ requests.length,
        ((requests.take sent).flatMap fun request =>
          lengthDelimited request.encodeCanonical) <+: part ↔ sent ≤ count) ∧
      ∀ dialogue, (handleConnection part).run.Yields dialogue (.ok ()) ↔
        ∃ exchanges : List Exchange, exchanges.map Exchange.request = requests.take count ∧
          (∀ exchange ∈ exchanges, exchange.Fits) ∧
          dialogue = exchanges.flatMap fun exchange => exchange.spoken (.ok ()) := by
  have framed (some_ : List RpcRequest) :
      (some_.flatMap fun request => lengthDelimited request.encodeCanonical) =
        (some_.map RpcRequest.encodeCanonical).flatMap lengthDelimited := by
    rw [List.flatMap_map]
  have small : ∀ payload ∈ requests.map RpcRequest.encodeCanonical,
      payload.length ≤ maxRpcFrameSize := by
    rw [List.forall_mem_map]
    exact fun request isRequest => (valid request isRequest).2
  rw [framed] at isPrefix
  obtain ⟨count, most, drained, complete_iff⟩ :=
    readFrame_delimited.drain_of_isPrefix small isPrefix
  rw [List.length_map] at most complete_iff
  refine ⟨count, most, ?_, ?_⟩
  · intro sent sentMost
    rw [framed, List.map_take]
    exact complete_iff sent sentMost
  · intro dialogue
    rw [handleConnection_yields_iff]
    constructor
    · intro found
      obtain ⟨exchanges, rest, last, answered, rfl, rfl, ends⟩ := found
      cases ends with
      | closed read =>
          refine ⟨exchanges, ?_, fun exchange isExchange => (answered exchange isExchange).2.2,
            List.append_nil _⟩
          rw [Exchange.flatMap_requestFrame, readFrame_delimited.drain_flatMap_append
              (Exchange.payloads_small answered),
            Decoder.drain_of_error _ read, List.append_nil, Prod.mk.injEq, ← List.map_take]
            at drained
          exact requests_eq_of_payloads_eq
            (List.forall_mem_map.mpr fun exchange isExchange => (answered exchange isExchange).1)
            (fun request isRequest => (valid request (List.mem_of_mem_take isRequest)).1)
            (by rw [List.map_map]; exact drained.1)
    · intro found
      obtain ⟨exchanges, served, fits, rfl⟩ := found
      have answered : ∀ exchange ∈ exchanges, exchange.Answered := by
        intro exchange isExchange
        have isRequest : exchange.request ∈ requests := by
          apply List.mem_of_mem_take (i := count)
          rw [← served]
          exact List.mem_map_of_mem isExchange
        exact ⟨(valid _ isRequest).1, (valid _ isRequest).2, fits exchange isExchange⟩
      obtain ⟨rest, rfl⟩ := (complete_iff count most).mpr (Nat.le_refl _)
      have payloads : (requests.map RpcRequest.encodeCanonical).take count =
          exchanges.map fun exchange => exchange.request.encodeCanonical := by
        rw [← List.map_take, ← served, List.map_map]
        rfl
      rw [payloads] at drained ⊢
      rw [readFrame_delimited.drain_flatMap_append (Exchange.payloads_small answered)] at drained
      have ended : readFrame.drain readFrame_delimited.consumes rest =
          ([], .io .unexpectedEof) := by
        obtain ⟨none_, eof⟩ := Prod.mk.inj drained
        exact Prod.ext (List.append_right_eq_self.mp none_) eof
      exact ⟨exchanges, rest, [], answered,
        congrArg (· ++ rest) (Exchange.flatMap_requestFrame exchanges).symm,
        (List.append_nil _).symm, .closed (readFrame_delimited.decode_of_drain_nil ended)⟩

/-- The tip is asked for, and the handler knows it. -/
def Sample.tipExchange : Exchange := ⟨.getTipStatus, .ok (7, Hash256.ofNat 9, 2)⟩

theorem Sample.fits_tipExchange : Sample.tipExchange.Fits := by
  unfold Exchange.Fits
  decide

/-- Two requests, of which the second one is cut: the tip status is sent. -/
theorem requests_served_in_order_cut :
    (handleConnection [0, 0, 0, 1, 3, 0, 0, 0, 6, 0, 0]).run.Yields
      (Sample.tipExchange.spoken (.ok ())) (.ok ()) := by
  have valid : ∀ request ∈ [RpcRequest.getTipStatus, .getBlockTemplate [5]],
      request.WellFormed ∧ request.encodeCanonical.length ≤ maxRpcFrameSize := by
    rw [List.forall_mem_cons, List.forall_mem_singleton]
    exact ⟨⟨trivial, by decide⟩, show 1 < 2 ^ 32 by decide, by decide⟩
  have isPrefix : [0, 0, 0, 1, 3, 0, 0, 0, 6, 0, 0] <+:
      [RpcRequest.getTipStatus, .getBlockTemplate [5]].flatMap fun request =>
        lengthDelimited request.encodeCanonical := by decide
  obtain ⟨count, most, complete_iff, served⟩ := requests_served_in_order _ valid isPrefix
  have first : 1 ≤ count := (complete_iff 1 (by decide)).mp (by decide)
  have cut : ¬ 2 ≤ count := by
    intro second
    exact absurd ((complete_iff 2 (by decide)).mpr second) (by decide)
  obtain rfl : count = 1 := by omega
  exact (served _).mpr ⟨[Sample.tipExchange], rfl,
    List.forall_mem_singleton.mpr Sample.fits_tipExchange, (List.append_nil _).symm⟩

/-- The methods that were called. -/
def called (dialogue : List ((op : ConnectionOp) × op.Answer)) : List HandlerCall :=
  dialogue.filterMap fun exchange =>
    match exchange.1 with
    | .call method => some method
    | .write _ => none

end Streams

end Aurion
