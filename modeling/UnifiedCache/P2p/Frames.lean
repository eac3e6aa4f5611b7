import UnifiedCache.Lib.Layout
import UnifiedCache.Lib.Transition

/-! The frames in which the managers of the P2P transport send their messages: a packed header,
whose first field is the length of the rest in network order, the source and the payload. -/
namespace UnifiedCache.P2p
open Layout Bytes FieldCodec Transition

structure ManagerMessageProtocol where
  body_size : UInt32
  request_id : UInt64
  protocol : UInt32
  status : Int32
  source_size : UInt32
  payload_size : UInt32
  type : UInt8
  reserved : Vector UInt8 7 := .replicate 7 0

open List

def ManagerMessageProtocol.codec : FieldCodec ManagerMessageProtocol :=
  convert (pair (network .uint32) <| pair .uint64 <| pair .uint32 <|
      pair (convert .uint32 UInt32.toInt32 Int32.toUInt32 (fun _ => rfl) fun _ => rfl) <|
      pair .uint32 <| pair .uint32 <| pair .uint8 <| .array 7 (by decide))
    (fun (a, b, c, d, e, f, g, h) => ⟨a, b, c, d, e, f, g, h⟩)
    (fun p => (p.body_size, p.request_id, p.protocol, p.status, p.source_size, p.payload_size,
      p.type, p.reserved)) (fun _ => rfl) fun _ => rfl

/-- The type is a number: `EncodeMessage` checks that it is one of the enumeration. -/
structure Message where
  type : UInt8
  request_id : UInt64
  protocol : UInt32
  source : List UInt8
  status : Int32
  payload : List UInt8
  deriving DecidableEq

def kMaxFrameSize : Nat := 4 * 1024 * 1024
def kManagerMessageBodySize : Nat := 36 - 4
def ManagerMessageType.Data : UInt8 := 3

def isControlRequest (type : UInt8) : Bool := type = 0 ∨ type = 1

def Message.header (message : Message) : ManagerMessageProtocol where
  body_size := .ofNat (kManagerMessageBodySize + message.source.length + message.payload.length)
  request_id := message.request_id
  protocol := message.protocol
  status := message.status
  source_size := .ofNat message.source.length
  payload_size := .ofNat message.payload.length
  type := message.type

def encodeMessage (message : Message) : Option (List UInt8) :=
  if ManagerMessageType.Data < message.type ∨
      kMaxFrameSize - kManagerMessageBodySize < message.source.length ∨
      kMaxFrameSize - kManagerMessageBodySize - message.source.length < message.payload.length then
    none
  else
    some (ManagerMessageProtocol.codec.encode message.header ++ (message.source ++ message.payload))

def loadBytes (bytes : List UInt8) (offset count : Nat) : Except (Fault ε) (List UInt8) :=
  if offset + count ≤ bytes.length then .ok (readAt bytes offset count) else .error .readPastEnd

def decodeMessage (frame : List UInt8) : Except (Fault Unit) Message := do
  refuse (frame.length < 36) ()
  let protocol ← loadField ManagerMessageProtocol.codec frame 0
  refuse (protocol.body_size.toNat ≠ frame.length - 4 ∨ ManagerMessageType.Data < protocol.type) ()
  let contentSize := protocol.source_size.toNat + protocol.payload_size.toNat
  refuse (contentSize ≠ frame.length - 36) ()
  let source ← loadBytes frame 36 protocol.source_size.toNat
  let payload ← loadBytes frame (36 + protocol.source_size.toNat)
    (contentSize - protocol.source_size.toNat)
  return { protocol with source, payload }

structure Channel where
  receiveBuffer : List UInt8 := []
  valid : Bool := true
  /-- All bytes received, all messages decoded, and whether `SubmitTask` failed for one. -/
  received : List UInt8 := []
  decoded : List Message := []
  refused : Bool := false

/-- The second loop of `ProcessFrames`; `submitted` says whether `SubmitTask` succeeds for the
message of that number. -/
def drain (submitted : Nat → Bool) : Nat → Channel → Channel
  | 0, channel => channel
  | fuel + 1, channel =>
    if channel.receiveBuffer.length < 4 then channel
    else
      let size := ((network .uint32).decode (channel.receiveBuffer.take 4)).toNat
      if kMaxFrameSize < size then { channel with valid := false }
      else if channel.receiveBuffer.length < 4 + size then channel
      else
        let frame := channel.receiveBuffer.take (4 + size)
        let channel := { channel with receiveBuffer := channel.receiveBuffer.drop (4 + size) }
        match decodeMessage frame with
        | .error _ => { channel with valid := false }
        | .ok message =>
          let channel := { channel with decoded := channel.decoded ++ [message] }
          if isControlRequest message.type ∧ ¬ submitted channel.decoded.length then
            { channel with valid := false, refused := true }
          else drain submitted fuel channel

/-- One call receives chunks until `Receive` has no more, or fails. -/
def processFrames (submitted : Nat → Bool) (channel : Channel)
    (call : List (List UInt8) × Bool) : Channel :=
  if channel.valid then
    drain submitted (channel.receiveBuffer ++ call.1.flatten).length { channel with
      receiveBuffer := channel.receiveBuffer ++ call.1.flatten
      received := channel.received ++ call.1.flatten
      valid := !call.2 }
  else channel

variable {message : Message} {frame : List UInt8}

theorem encodeMessage_spec (h : encodeMessage message = some frame) : 36 ≤ frame.length ∧
    frame.length ≤ 4 + kMaxFrameSize ∧ 4 + ((network .uint32).decode (frame.take 4)).toNat =
    frame.length ∧ decodeMessage frame = .ok message := by
  unfold encodeMessage at h
  split at h <;> cases h
  rename_i hk
  simp only [kMaxFrameSize, kManagerMessageBodySize, not_or, not_lt] at hk
  have hs : message.header.source_size.toNat = message.source.length :=
    UInt32.toNat_ofNat_of_lt' (by simp [UInt32.size]; omega)
  have hp : message.header.payload_size.toNat = message.payload.length :=
    UInt32.toNat_ofNat_of_lt' (by simp [UInt32.size]; omega)
  have hb : message.header.body_size.toNat = 32 + message.source.length + message.payload.length :=
    UInt32.toNat_ofNat_of_lt' (by simp [UInt32.size, kManagerMessageBodySize]; omega)
  have hh : (ManagerMessageProtocol.codec.encode message.header).length = 36 :=
    ManagerMessageProtocol.codec.length_encode _
  have ho : (ManagerMessageProtocol.codec.encode message.header).take 4 =
      (network .uint32).encode message.header.body_size :=
    take_left' ((network .uint32).length_encode _)
  refine ⟨by simp [hh], by simp [hh, kMaxFrameSize]; omega, ?_, ?_⟩
  · rw [take_append_of_le_length (by omega), ho, FieldCodec.decode_encode, hb]
    simp [hh]
    omega
  · simp only [decodeMessage, bind_eq_ok, refuse_eq_ok, pure_eq_ok]
    refine ⟨(), by simp [hh], message.header, loadField_eq_ok.2 ?_, (), ?_, (), ?_,
      message.source, ?_, message.payload, ?_, rfl⟩
    · exact take_left' hh
    · rintro (hn | ht)
      · simp [hb, hh] at hn
        omega
      · exact hk.1 ht
    · simp [hh, hs, hp]
    · simp [loadBytes, hh, hs, readAt]
    · rw [loadBytes, hs, hp, Nat.add_sub_cancel_left, if_pos (by simp [hh]; omega), readAt,
        ← drop_drop, drop_left' hh]
      simp

theorem lengths_of_decodeMessage (h : decodeMessage frame = .ok message) : ∃ protocol,
    readAt frame 0 36 = ManagerMessageProtocol.codec.encode protocol ∧
    4 + protocol.body_size.toNat = frame.length ∧
    36 + protocol.source_size.toNat + protocol.payload_size.toNat = frame.length := by
  simp only [decodeMessage, bind_eq_ok, refuse_eq_ok, loadField_eq_ok, not_or, not_not] at h
  obtain ⟨_, hl, protocol, hp, _, hb, _, hc, _⟩ := h
  exact ⟨protocol, hp, by omega, by omega⟩

theorem inBounds_decodeMessage (frame : List UInt8) : InBounds (decodeMessage frame) := by
  refine .bind (.refuse _ _) fun _ hl => ?_
  rw [refuse_eq_ok] at hl
  refine .bind (.loadField ?_) fun p _ => ?_
  · change 0 + 36 ≤ _
    omega
  refine .bind (.refuse _ _) fun _ _ => .bind (.refuse _ _) fun _ hc => ?_
  rw [refuse_eq_ok] at hc
  rw [loadBytes, loadBytes, if_pos (by omega), if_pos (by omega)]
  exact .ok _

def stream (messages : List Message) : List UInt8 :=
  messages.flatMap fun message => (encodeMessage message).getD []

@[simp]
theorem stream_append (a b : List Message) : stream (a ++ b) = stream a ++ stream b :=
    flatMap_append

namespace Channel

/-- All complete frames have been decoded; `rest` are the messages of the others. -/
structure Exact (channel : Channel) (rest : List Message) : Prop where
  kept : stream channel.decoded ++ channel.receiveBuffer = channel.received
  ahead : channel.receiveBuffer <+: stream rest
  prompt : ∀ message ∈ rest.head?, ∀ frame, encodeMessage message = some frame →
    channel.receiveBuffer.length < frame.length

/-- What has been decoded of the stream of the messages, unless a task was refused. -/
def Decodes (channel : Channel) (messages : List Message) : Prop :=
  ∃ rest, messages = channel.decoded ++ rest ∧ (channel.refused → ¬ channel.valid) ∧
    (¬ channel.refused → channel.Exact rest)

end Channel

variable {submitted : Nat → Bool} {channel : Channel} {messages rest : List Message} {fuel : Nat}

@[simp] theorem received_drain (submitted : Nat → Bool) (fuel : Nat) (channel : Channel) :
    (drain submitted fuel channel).received = channel.received := by
  fun_induction drain <;> first | rfl | assumption

theorem drain_decodes (hr : ∀ m ∈ messages, (encodeMessage m).isSome) (hn : ¬ channel.refused)
    (hf : channel.receiveBuffer.length ≤ fuel) (hm : messages = channel.decoded ++ rest)
    (hk : stream channel.decoded ++ channel.receiveBuffer = channel.received)
    (ha : channel.receiveBuffer <+: stream rest) :
    (drain submitted fuel channel).Decodes messages := by
  induction fuel generalizing channel rest with
  | zero =>
    refine ⟨rest, hm, fun h => absurd h hn, fun _ => ⟨hk, ha, fun m _ f he => ?_⟩⟩
    have := (encodeMessage_spec he).1
    change channel.receiveBuffer.length < _
    omega
  | succ fuel ih =>
    have stop (hp : ∀ m ∈ rest.head?, ∀ f, encodeMessage m = some f →
        channel.receiveBuffer.length < f.length) : channel.Decodes messages :=
      ⟨rest, hm, fun h => absurd h hn, fun _ => ⟨hk, ha, hp⟩⟩
    unfold drain
    split
    · refine stop fun m _ f he => ?_
      have := (encodeMessage_spec he).1
      omega
    cases rest with
    | nil =>
      have : _ ≤ 0 := ha.length_le
      omega
    | cons m rest =>
      obtain ⟨f, he⟩ := Option.isSome_iff_exists.1 (hr m (by simp [hm]))
      obtain ⟨hl, hx, hs, hd⟩ := encodeMessage_spec he
      have hst : stream (m :: rest) = f ++ stream rest := by simp [stream, he]
      rw [hst] at ha
      have hta : channel.receiveBuffer.take 4 = f.take 4 := by
        obtain ⟨t, ht⟩ := ha
        have hp := congrArg (take 4) ht
        rwa [take_append_of_le_length (by omega), take_append_of_le_length (by omega)] at hp
      dsimp only
      rw [hta, if_neg (by omega), hs]
      split
      · refine stop fun m' hm' f' he' => ?_
        cases hm'
        cases he.symm.trans he'
        assumption
      have hfr : f <+: channel.receiveBuffer :=
        prefix_of_prefix_length_le (prefix_append ..) ha (by omega)
      obtain ⟨ta, hb⟩ := hfr
      rw [← hb, prefix_append_right_inj] at ha
      have hle := congrArg length hb
      rw [length_append] at hle
      rw [← hb, take_left, drop_left, hd]
      dsimp only
      split
      · exact ⟨rest, by simp [hm], fun _ => by simp, fun h => absurd rfl h⟩
      · refine ih hn ?_ ?_ ?_ ha
        · dsimp only
          omega
        · simp [hm]
        · simp [← hk, ← hb, stream, he]

theorem processFrames_decodes (hr : ∀ m ∈ messages, (encodeMessage m).isSome)
    (ih : channel.received <+: stream messages → channel.Decodes messages)
    {c : List (List UInt8) × Bool}
    (hp : (processFrames submitted channel c).received <+: stream messages) :
    (processFrames submitted channel c).Decodes messages := by
  unfold processFrames at hp ⊢
  split
  · rename_i hv
    rw [if_pos hv, received_drain] at hp
    obtain ⟨rest, hm, hn, he⟩ := ih ((prefix_append ..).trans hp)
    have hn' : ¬ channel.refused := fun h => hn h hv
    have hk := (he hn').kept
    refine drain_decodes hr hn' le_rfl hm ?_ ?_
    · simp [← hk]
    · rw [hm, ← hk, append_assoc, stream_append] at hp
      exact (prefix_append_right_inj _).1 hp
  · rename_i hv
    rw [if_neg hv] at hp
    exact ih hp

theorem Channel.Decodes.all (hr : ∀ m ∈ messages, (encodeMessage m).isSome)
    (h : channel.Decodes messages) (hs : channel.received = stream messages)
    (hn : ¬ channel.refused) : channel.decoded = messages := by
  obtain ⟨rest, hm, -, he⟩ := h
  obtain ⟨hk, -, hp⟩ := he hn
  rw [hs, hm, stream_append, append_cancel_left_eq] at hk
  cases rest with
  | nil => simp [hm]
  | cons m rest =>
    obtain ⟨f, he⟩ := Option.isSome_iff_exists.1 (hr m (by simp [hm]))
    have hl := hp m rfl f he
    have hs : f.length ≤ (stream (m :: rest)).length := by simp [stream, he]
    rw [hk] at hl
    omega

theorem message_stream (hr : ∀ m ∈ messages, (encodeMessage m).isSome)
    (calls : List (List (List UInt8) × Bool))
    (hc : channel = run (processFrames submitted) {} calls) :
    (channel.received <+: stream messages → channel.Decodes messages) ∧
      (channel.received = stream messages → ¬ channel.refused → channel.decoded = messages) ∧
      ∀ frame, InBounds (decodeMessage frame) ∧ ∀ message, decodeMessage frame = .ok message →
        ∃ protocol, readAt frame 0 36 = ManagerMessageProtocol.codec.encode protocol ∧
          4 + protocol.body_size.toNat = frame.length ∧
          36 + protocol.source_size.toNat + protocol.payload_size.toNat = frame.length := by
  have hd : channel.received <+: stream messages → channel.Decodes messages := by
    subst hc
    refine run_invariant (I := fun _ (c : Channel) =>
      c.received <+: stream messages → c.Decodes messages) ?_ ?_ calls
    · exact fun _ => ⟨messages, rfl, nofun, fun _ => ⟨rfl, nil_prefix,
        fun m _ f he => Nat.lt_of_lt_of_le (by decide) (encodeMessage_spec he).1⟩⟩
    · exact fun _ c call ih hp => processFrames_decodes hr ih hp
  exact ⟨hd, fun hs => (hd (hs ▸ prefix_rfl)).all hr hs,
    fun frame => ⟨inBounds_decodeMessage frame, fun _ => lengths_of_decodeMessage⟩⟩

/-- A message that is received in two calls, the second of which fails at its end. -/
theorem message_stream_one : (run (processFrames fun _ => true) {} [([[0, 0, 0], [35, 7]], false),
      ([[0, 0, 0, 0, 0, 0, 0, 0, 0, 0, 0, 0, 0, 0, 0, 1, 0, 0, 0, 2, 0, 0, 0, 3],
        [0, 0, 0, 0, 0, 0, 0, 65, 8, 9]], true)]).decoded = [⟨3, 7, 0, [65], 0, [8, 9]⟩] :=
  (message_stream (by decide) _ rfl).2.1 (by decide) (by decide)

end UnifiedCache.P2p
