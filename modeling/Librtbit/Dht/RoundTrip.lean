import Librtbit.Dht.Protocol

/-!
# Dht/RoundTrip — a DHT message is read back as it was written

* `RawMessage.reads_deserialize` — a message that was written with one type of arguments and
  responses is read with another, if what is there is.  It serves both passes: in the first one the
  arguments and the response are passed over.
* `Message.deserialize_serialize` — a message is read back.
* `Message.exists_dictKeys` — and what is read as a message of some kind has the keys of that kind.
-/

namespace Librtbit.Dht

open Machinery Bencode Net Dht.Response Outcome List

/-! ## Parts of messages -/

lemma MessageType.reads_deserialize (t : MessageType) : Reads deserialize t.serialize t := by
  have hlen : t.bytes.length < 2 ^ 64 := by cases t <;> decide
  refine (reads_parseBytes hlen).bind_nil ?_
  cases t <;> exact Reads.pure _

lemma MessageType.skippable_deserialize : Skippable deserialize := by
  refine skippable_parseBytes.bind fun v => ?_
  rw [visitBytes]
  split
  · exact Covers.pure trivial
  split
  · exact Covers.pure trivial
  · split
    · exact Covers.pure trivial
    · exact Covers.throw _

lemma ErrorDescription.reads_deserialize {e}
    (hlen : (writeBytes e.description).length < 2 ^ 64) : Reads deserialize e.serialize e := by
  have hcode := reads_nextElement (reads_deserializeI32 e.code) (startsValue_writeNumber _)
  have hdescription := reads_nextElement (reads_writeBytes hlen) (startsValue_writeBytes _)
  have hseq : Reads visitSeq
      (serializeI32 e.code ++ (writeBytes e.description ++ ['e'.toUInt8])) e := by
    refine hcode.bind (hdescription.bind ?_)
    exact (reads_nextElement_end ignoredAny).bind_nil (Reads.pure e)
  have hserialize : e.serialize = ['l'.toUInt8] ++
      (serializeI32 e.code ++ (writeBytes e.description ++ ['e'.toUInt8])) := by
    simp [serialize, serializeSeq]
  rw [hserialize]
  exact (reads_parseFirstByte _ _).bind hseq

/-- One more element of a list that is passed over. -/
lemma loopAll_ignoredAny (acc : List Unit) :
    loopAll DeError.eof (seqBody ignoredAny) acc = nextElement ignoredAny >>= fun v =>
      match v with
      | none => pure acc
      | some v => loopAll DeError.eof (seqBody ignoredAny) (acc ++ [v]) := by
  rw [loopAll_eq (consumes_seqBody consumes_ignoredAny), seqBody, bind_assoc]
  refine bind_congr fun v => ?_
  cases v <;> rfl

lemma ErrorDescription.skippable_deserialize : Skippable deserialize := by
  refine skippable_of_loopAll ?_
  rw [loopAll_ignoredAny]
  refine (covers_nextElement (skippable_deserializeSigned 32 Int32.ofInt)).bind fun code _ h => ?_
  cases h with
  | none => exact Covers.throw _
  | some =>
    dsimp only
    rw [loopAll_ignoredAny]
    refine (covers_nextElement skippable_parseBytes).bind fun description _ h => ?_
    cases h with
    | none => exact Covers.throw _
    | some =>
      dsimp only
      rw [loopAll_ignoredAny]
      refine (covers_nextElement skippable_ignoredAny).bind fun _ _ h => ?_
      cases h with
      | none => exact Covers.pure trivial
      | some => exact Covers.throw _

/-- **A list is read back if its elements are.** -/
theorem reads_serializeSeq {T : Type} {elem write} {vs : List T}
    (h : ∀ v ∈ vs, Reads elem (write v) v ∧ StartsValue (write v)) :
    Reads (deserializeSeq elem) (serializeSeq (vs.map write)) vs := by
  refine reads_deserializeSeq ?_
  rw [forall₂_map_left_iff, forall₂_same]
  exact h

lemma length_le_serializeSeq {bytes elements} (h : bytes ∈ elements) :
    bytes.length ≤ (serializeSeq elements).length := by
  have hle := (sublist_flatten_of_mem h).length_le
  rw [serializeSeq, length_cons, length_append]
  omega

lemma Want.reads_deserialize (want : Want) : Reads deserialize want.serialize want := by
  have hitems : ∀ item ∈ want.items, item.length < 2 ^ 64 := by cases want <;> decide
  refine (reads_serializeSeq fun item h => ?_).bind_nil ?_
  · exact ⟨reads_parseBytes (hitems item h), startsValue_writeBytes item⟩
  · cases want <;> exact Reads.pure _

lemma Want.skippable_deserialize : Skippable deserialize :=
  (skippable_deserializeSeq skippable_parseBytes).bind fun _ => Covers.pure trivial

/-! ## Arguments and responses -/

/-- The addresses among the fields are plain. -/
def Field.Plain : (f : Field) → f.Ty → Prop
  | .values, addrs => ∀ addr ∈ addrs, SocketAddr.Plain addr
  | _, _ => True

lemma reads_writeCompact {addr} (hlen : (writeCompact addr).length < 2 ^ 64)
    (h : addr.Plain) : Reads (readCompact SocketAddr) (writeCompact addr) addr := by
  refine reads_readCompact hlen ?_
  rw [SocketAddr.fromSlice_asSlice, (SocketAddr.new_eq_self_iff addr).mpr h]

lemma reads_body {f v} (hlen : (body.write f v).length < 2 ^ 64)
    (hplain : f.Plain v) : Reads (body.read f) (body.write f v) v := by
  cases f with
  | id | target | infoHash => exact Id.reads_deserialize hlen
  | want => exact Want.reads_deserialize v
  | values =>
    refine reads_serializeSeq fun addr h => ⟨reads_writeCompact ?_ (hplain addr h),
      startsValue_writeBytes _⟩
    exact Nat.lt_of_le_of_lt (length_le_serializeSeq (mem_map_of_mem h)) hlen
  | nodes | nodes6 => exact CompactListInBuffer.reads_deserialize hlen
  | token | v | k | sig | salt => exact reads_writeBytes hlen
  | seq | cas => exact reads_deserializeI64 v
  | impliedPort => exact reads_deserializeU8 v
  | port => exact reads_deserializeU16 v

lemma skippable_body (f : Field) : Skippable (body.read f) := by
  cases f with
  | id | target | infoHash => exact Id.skippable_deserialize
  | want => exact Want.skippable_deserialize
  | values => exact skippable_deserializeSeq skippable_readCompact
  | nodes | nodes6 => exact CompactListInBuffer.skippable_deserialize
  | token | v | k | sig | salt => exact skippable_parseBytes
  | seq | cas => exact skippable_deserializeSigned _ _
  | impliedPort | port => exact skippable_deserializeUnsigned _ _

namespace Struct

variable {α : Type}

/-- A struct that its fields make up. -/
structure Sound (s : Struct α) : Prop where
  nodup : (s.all.map body.key).Nodup
  fields_eq_none : ∀ x f, f ∉ s.all → s.fields x f = none
  ofFields_fields : ∀ x, s.ofFields (s.fields x) = .ok x

/-- The addresses in a struct are plain. -/
def Plain (s : Struct α) (x : α) : Prop := ∀ f v, s.fields x f = some v → f.Plain v

variable {s : Struct α} (hs : s.Sound)

/-- A struct without addresses. -/
lemma plain_of_eq_none {x} (h : s.fields x .values = none) : s.Plain x := by
  intro f v hv
  cases f with
  | values =>
    rw [h] at hv
    cases hv
  | _ => trivial

lemma length_key_lt (f : Field) : (body.key f).length < 2 ^ 64 := by cases f <;> decide

include hs

lemma Sound.sound_only : (body.only s.all).Sound :=
  Schema.sound_only hs.nodup fun f _ => length_key_lt f

/-- **A struct is read back.** -/
theorem Sound.reads {x} (hplain : s.Plain x) (hlen : (s.codec.write x).length < 2 ^ 64) :
    Reads s.codec.read (s.codec.write x) x := by
  refine hs.sound_only.reads_deserialize (fun f v hv => reads_body ?_ (hplain f v hv)) ?_
  · exact Nat.lt_trans (hs.sound_only.length_write_lt hv) hlen
  · rw [Schema.extend_restrict (hs.fields_eq_none x), hs.ofFields_fields]

omit hs in
lemma skippable : Skippable s.codec.read :=
  Schema.skippable_deserialize (s := body.only s.all) (fun f => skippable_body f) _

end Struct

lemma FindNodeRequest.sound_struct : FindNodeRequest.struct.Sound where
  nodup := by decide
  fields_eq_none _ f hf := by cases f <;> first | rfl | exact absurd (by decide) hf
  ofFields_fields _ := rfl

lemma Response.sound_struct : Response.struct.Sound where
  nodup := by decide
  fields_eq_none _ f hf := by cases f <;> first | rfl | exact absurd (by decide) hf
  ofFields_fields _ := rfl

lemma GetPeersRequest.sound_struct : GetPeersRequest.struct.Sound where
  nodup := by decide
  fields_eq_none _ f hf := by cases f <;> first | rfl | exact absurd (by decide) hf
  ofFields_fields _ := rfl

lemma PingRequest.sound_struct : PingRequest.struct.Sound where
  nodup := by decide
  fields_eq_none _ f hf := by cases f <;> first | rfl | exact absurd (by decide) hf
  ofFields_fields _ := rfl

lemma AnnouncePeer.sound_struct : AnnouncePeer.struct.Sound where
  nodup := by decide
  fields_eq_none _ f hf := by cases f <;> first | rfl | exact absurd (by decide) hf
  ofFields_fields _ := rfl

lemma Bep44GetRequest.sound_struct : Bep44GetRequest.struct.Sound where
  nodup := by decide
  fields_eq_none _ f hf := by cases f <;> first | rfl | exact absurd (by decide) hf
  ofFields_fields _ := rfl

lemma Bep44PutRequest.sound_struct : Bep44PutRequest.struct.Sound where
  nodup := by decide
  fields_eq_none _ f hf := by cases f <;> first | rfl | exact absurd (by decide) hf
  ofFields_fields _ := rfl

/-! ## The message around them -/

namespace RawMessage

variable {A A' R R' : Type} {args : Codec A} {args' : Codec A'} {resp : Codec R} {resp' : Codec R'}

lemma sound_schema : (schema args resp).Sound where
  complete f := by cases f <;> simp [schema]
  nodup := by
    show ([.messageType, .transactionId, .error, .response, .methodName, .arguments, .version,
      .ip].map (schema Codec.ignored Codec.ignored).key).Nodup
    decide
  short f := by
    show ((schema Codec.ignored Codec.ignored).key f).length < 2 ^ 64
    cases f <;> decide

/-- The same message with other arguments and another response. -/
def withParts (m : RawMessage A R) (arguments : Option A') (response : Option R') :
    RawMessage A' R' where
  messageType := m.messageType
  transactionId := m.transactionId
  error := m.error
  response
  methodName := m.methodName
  arguments
  version := m.version
  ip := m.ip

/-- What is there was written in such a way that it can be read. -/
def ReadsPart {α β : Type} (write : α → ByteBuf) (read : De β) : Option α → Option β → Prop :=
  Option.Rel fun a b => Reads read (write a) b

/-- A part that is there is written the same, and read. -/
lemma ReadsPart.of_eq_some {α β : Type} {write read} {a : Option α}
    {b} (h : ReadsPart write read a b) {v : β} (hv : b = some v) :
    Reads read ((a.map write).getD []) v := by
  subst hv
  cases h with
  | some hread => exact hread

lemma ReadsPart.map_eq {α β : Type} {write read} {a : Option α}
    {b : Option β} (h : ReadsPart write read a b) :
    (b.map fun _ => (a.map write).getD []) = a.map write := by
  cases h <;> rfl

/-- **A message is read**, its arguments and its response as something else than they were. -/
theorem reads_deserialize {m : RawMessage A R} {arguments response}
    (hlen : (m.serialize args resp).length < 2 ^ 64) (hip : ∀ addr ∈ m.ip, addr.Plain)
    (harguments : ReadsPart args.write args'.read m.arguments arguments)
    (hresponse : ReadsPart resp.write resp'.read m.response response) :
    Reads (deserialize args' resp') (m.serialize args resp) (m.withParts arguments response) := by
  -- the codecs that write what was written, and read what is to be read
  let args'' : Codec A' := ⟨fun _ => (m.arguments.map args.write).getD [], args'.read⟩
  let resp'' : Codec R' := ⟨fun _ => (m.response.map resp.write).getD [], resp'.read⟩
  have hsame : (m.withParts arguments response).serialize args'' resp'' =
      m.serialize args resp := by
    refine congrArg serializeStruct (map_congr_left fun f _ => Prod.ext rfl ?_)
    cases f with
    | arguments => exact harguments.map_eq
    | response => exact hresponse.map_eq
    | _ => rfl
  rw [← hsame] at hlen ⊢
  refine sound_schema.reads_deserialize (s := schema args'' resp'') (fun f v hv => ?_) rfl
  have hlt := Nat.lt_trans (sound_schema.length_write_lt hv) hlen
  cases f with
  | messageType => exact MessageType.reads_deserialize v
  | transactionId | methodName | version => exact reads_writeBytes hlt
  | error =>
    refine ErrorDescription.reads_deserialize (Nat.lt_of_le_of_lt ?_ hlt)
    exact length_le_serializeSeq (mem_cons_of_mem _ (mem_singleton_self _))
  | response => exact hresponse.of_eq_some hv
  | arguments => exact harguments.of_eq_some hv
  | ip => exact reads_writeCompact hlt (hip v hv)

end RawMessage

namespace Message

open RawMessage

variable {A R Part : Type} {args : Codec A} {resp : Codec R}

lemma fromBytesRaw_of_reads {buf m}
    (h : Reads (RawMessage.deserialize args resp) buf m) : fromBytesRaw args resp buf = .ok m := by
  rw [fromBytesRaw, fromBytes_of_reads h]

/-- What was written can be passed over. -/
lemma readsPart_ignored {α : Type} {write read} (h : Skippable read)
    {a : Option α} (ha : ∀ x ∈ a, Reads read (write x) x) :
    ReadsPart write ignoredAny a (a.map fun _ => ()) := by
  cases a with
  | none => exact .none
  | some x => exact .some (h.reads (ha x rfl))

lemma readsPart_self {α : Type} {write read} {a : Option α}
    (ha : ∀ x ∈ a, Reads read (write x) x) : ReadsPart write read a a := by
  cases a with
  | none => exact .none
  | some x => exact .some (ha x rfl)

/-- The addresses in a message are plain. -/
def Plain (m : Message) : Prop :=
  (∀ addr ∈ m.ip, addr.Plain) ∧
    match m.kind with
    | .response resp => ∀ values ∈ resp.values, ∀ addr ∈ values, SocketAddr.Plain addr
    | _ => True

/-- The second pass over a message. -/
lemma deserializeAs_of_reads {buf raw part x} {kind : Part → MessageKind}
    (h : Reads (RawMessage.deserialize args resp) buf raw) (hpart : part raw = some x) :
    deserializeAs args resp part kind buf =
      .ok { transactionId := raw.transactionId, version := raw.version, ip := raw.ip,
            kind := kind x } := by
  rw [deserializeAs, fromBytesRaw_of_reads h, ok_bind, hpart]
  rfl

variable {m : Message}

/-- **A request is read back.** -/
theorem deserialize_serializeRequest {s} (hs : s.Sound) {methodName req} {kind : A → MessageKind}
    (hmethod : deserializeMethod (ascii methodName) = deserializeRequest s kind)
    (hkind : m.kind = kind req) (hip : ∀ addr ∈ m.ip, addr.Plain) (hplain : s.Plain req)
    (hlen : (m.serializeRequest s methodName req).length < 2 ^ 64) :
    deserialize (m.serializeRequest s methodName req) = .ok m := by
  have hargs : ∀ x ∈ some req, Reads s.codec.read (s.codec.write x) x := by
    rintro x ⟨⟩
    have hfield : (m.rawRequest methodName req).fields s.codec .ignored .arguments = some req := rfl
    exact hs.reads hplain (Nat.lt_trans (sound_schema.length_write_lt hfield) hlen)
  have hfirst : Reads (RawMessage.deserialize .ignored .ignored)
      (m.serializeRequest s methodName req)
      ((m.rawRequest methodName req).withParts (some ()) none) :=
    reads_deserialize hlen hip (readsPart_ignored s.skippable hargs) .none
  have hsecond : Reads (RawMessage.deserialize s.codec .ignored)
      (m.serializeRequest s methodName req)
      ((m.rawRequest methodName req).withParts (some req) none) :=
    reads_deserialize hlen hip (readsPart_self hargs) .none
  have hpart : RawMessage.arguments ((m.rawRequest methodName req).withParts (some req)
      (none : Option Unit)) = some req := rfl
  rw [deserialize, fromBytesRaw_of_reads hfirst]
  refine (congrFun hmethod _).trans ?_
  rw [deserializeRequest, deserializeAs_of_reads hsecond hpart, ← hkind]
  rfl

/-- **A response is read back.** -/
theorem deserialize_rawResponse {resp} (hkind : m.kind = .response resp)
    (hip : ∀ addr ∈ m.ip, addr.Plain) (hplain : struct.Plain resp)
    (hlen : ((m.rawResponse resp).serialize .ignored struct.codec).length < 2 ^ 64) :
    deserialize ((m.rawResponse resp).serialize .ignored struct.codec) = .ok m := by
  have hresp : ∀ x ∈ some resp,
      Reads struct.codec.read (struct.codec.write x) x := by
    rintro x ⟨⟩
    have hfield : (m.rawResponse resp).fields .ignored struct.codec .response =
        some resp := rfl
    exact sound_struct.reads hplain
      (Nat.lt_trans (sound_schema.length_write_lt hfield) hlen)
  have hfirst : Reads (RawMessage.deserialize .ignored .ignored)
      ((m.rawResponse resp).serialize .ignored struct.codec)
      ((m.rawResponse resp).withParts none (some ())) :=
    reads_deserialize hlen hip .none (readsPart_ignored struct.skippable hresp)
  have hsecond : Reads (RawMessage.deserialize .ignored struct.codec)
      ((m.rawResponse resp).serialize .ignored struct.codec)
      ((m.rawResponse resp).withParts none (some resp)) :=
    reads_deserialize hlen hip .none (readsPart_self hresp)
  have hpart : RawMessage.response ((m.rawResponse resp).withParts (none : Option Unit)
      (some resp)) = some resp := rfl
  rw [deserialize, fromBytesRaw_of_reads hfirst, ok_bind]
  refine (deserializeAs_of_reads hsecond hpart).trans ?_
  rw [← hkind]
  rfl

/-- **An error is read back.** -/
theorem deserialize_rawError {e} (hkind : m.kind = .error e) (hip : ∀ addr ∈ m.ip, addr.Plain)
    (hlen : ((m.rawError e).serialize .ignored .ignored).length < 2 ^ 64) :
    deserialize ((m.rawError e).serialize .ignored .ignored) = .ok m := by
  have hread : ∀ {R' : Type} (resp' : Codec R'), Reads (RawMessage.deserialize .ignored resp')
      ((m.rawError e).serialize .ignored .ignored) ((m.rawError e).withParts none none) :=
    fun _ => reads_deserialize hlen hip .none .none
  have hpart : RawMessage.error ((m.rawError e).withParts (none : Option Unit)
      (none : Option Response)) = some e := rfl
  rw [deserialize, fromBytesRaw_of_reads (hread .ignored), ok_bind]
  refine (deserializeAs_of_reads (hread struct.codec) hpart).trans ?_
  rw [← hkind]
  rfl

/-- **A message is read back.** -/
theorem deserialize_serialize (hplain : m.Plain)
    (hlen : m.serialize.length < 2 ^ 64) : deserialize m.serialize = .ok m := by
  obtain ⟨hip, hvalues⟩ := hplain
  rw [serialize] at hlen ⊢
  cases hkind : m.kind with
  | error e =>
    rw [hkind] at hlen
    exact deserialize_rawError hkind hip hlen
  | response resp =>
    rw [hkind] at hlen hvalues
    refine deserialize_rawResponse hkind hip (fun f v hv => ?_) hlen
    cases f with
    | values => exact hvalues v hv
    | _ => trivial
  | getPeersRequest req =>
    rw [hkind] at hlen
    exact deserialize_serializeRequest GetPeersRequest.sound_struct rfl hkind hip
      (Struct.plain_of_eq_none rfl) hlen
  | findNodeRequest req =>
    rw [hkind] at hlen
    exact deserialize_serializeRequest FindNodeRequest.sound_struct rfl hkind hip
      (Struct.plain_of_eq_none rfl) hlen
  | pingRequest req =>
    rw [hkind] at hlen
    exact deserialize_serializeRequest PingRequest.sound_struct rfl hkind hip
      (Struct.plain_of_eq_none rfl) hlen
  | announcePeer req =>
    rw [hkind] at hlen
    exact deserialize_serializeRequest AnnouncePeer.sound_struct rfl hkind hip
      (Struct.plain_of_eq_none rfl) hlen
  | bep44GetRequest req =>
    rw [hkind] at hlen
    exact deserialize_serializeRequest Bep44GetRequest.sound_struct rfl hkind hip
      (Struct.plain_of_eq_none rfl) hlen
  | bep44PutRequest req =>
    rw [hkind] at hlen
    exact deserialize_serializeRequest Bep44PutRequest.sound_struct rfl hkind hip
      (Struct.plain_of_eq_none rfl) hlen

end Message

/-! ## What the kinds of messages need -/

/-- The keys a message of a kind cannot do without. -/
def MessageKind.mandatoryKeys : MessageKind → List String
  | .error _ => ["y", "e"]
  | .response _ => ["y", "r"]
  | .getPeersRequest _ | .findNodeRequest _ | .pingRequest _ | .announcePeer _
  | .bep44GetRequest _ | .bep44PutRequest _ => ["y", "q", "a"]

namespace RawMessage

variable {A R : Type} {args : Codec A} {resp : Codec R} {m : RawMessage A R}

lemma eq_fields_of_ofFields {values}
    (h : ofFields args resp values = .ok m) : values = m.fields args resp := by
  rw [ofFields, Schema.require, Schema.require] at h
  cases htype : values .messageType with
  | none =>
    rw [htype] at h
    cases h
  | some messageType =>
    cases hid : values .transactionId with
    | none =>
      rw [htype, hid] at h
      cases h
    | some transactionId =>
      rw [htype, hid] at h
      cases h
      funext f
      cases f with
      | messageType => exact htype
      | transactionId => exact hid
      | _ => rfl

variable (hargs : Skippable args.read) (hresp : Skippable resp.read)
include hargs hresp

/-- Everything in a message but its arguments and its response can be passed over. -/
lemma skippable_read (f : Field) :
    Skippable ((schema args resp).read f) := by
  cases f with
  | messageType => exact MessageType.skippable_deserialize
  | transactionId | methodName | version => exact skippable_parseBytes
  | error => exact ErrorDescription.skippable_deserialize
  | response => exact hresp
  | arguments => exact hargs
  | ip => exact skippable_readCompact (T := SocketAddr)

/-- **A message has the keys of the fields that are found in it.** -/
theorem exists_keys {buf} (h : fromBytes (deserialize args resp) buf = .ok m) :
    ∃ keys, fromBytes dictKeys buf = .ok keys ∧
      ∀ f, (m.fields args resp f).isSome ↔ (schema .ignored .ignored).key f ∈ keys := by
  obtain ⟨keys, hkeys, values, hvalues, hmem⟩ := fromBytes_of_covers
    (Schema.covers_deserialize_keys sound_schema (skippable_read hargs hresp) _) h
  rw [eq_fields_of_ofFields hvalues] at hmem
  exact ⟨keys, hkeys, hmem⟩

/-- **Both passes find the same fields.** -/
theorem isSome_fields_eq {A' R' : Type} {args' resp'} (hargs' : Skippable args'.read)
    (hresp' : Skippable resp'.read) {buf} {m' : RawMessage A' R'}
    (h : fromBytes (deserialize args resp) buf = .ok m)
    (h' : fromBytes (deserialize args' resp') buf = .ok m') (f : Field) :
    (m.fields args resp f).isSome = (m'.fields args' resp' f).isSome := by
  obtain ⟨keys, hkeys, hmem⟩ := exists_keys hargs hresp h
  obtain ⟨keys', hkeys', hmem'⟩ := exists_keys hargs' hresp' h'
  obtain rfl : keys = keys' := Except.ok.inj (hkeys.symm.trans hkeys')
  rw [Bool.eq_iff_iff, hmem f, hmem' f]

end RawMessage

namespace Message

variable {buf : ByteBuf} {m : Message}

lemma kind_of_deserializeAs {A R Part : Type} {args resp}
    {part : RawMessage A R → Option Part} {kind}
    (h : deserializeAs args resp part kind buf = .ok m) : ∃ x, m.kind = kind x := by
  obtain ⟨de, -, h⟩ := bind_eq_ok.mp h
  obtain ⟨x, -, h⟩ := bind_eq_ok.mp h
  cases h
  exact ⟨x, rfl⟩

lemma mandatoryKeys_of_deserializeMethod {methodName buf}
    (h : deserializeMethod methodName buf = .ok m) : m.kind.mandatoryKeys = ["y", "q", "a"] := by
  rw [deserializeMethod] at h
  repeat' split at h
  all_goals
    first
    | cases h
    | obtain ⟨x, hx⟩ := kind_of_deserializeAs h
      rw [hx]
      rfl

variable {de : RawMessage Unit Unit}

/-- The fields that the first pass found are those that the kind needs. -/
lemma isSome_of_deserializeKind (h : deserializeKind de buf = .ok m) :
    ∀ k ∈ m.kind.mandatoryKeys, ∃ f, (de.fields .ignored .ignored f).isSome ∧
      (RawMessage.schema .ignored .ignored).name f = k := by
  obtain ⟨messageType, transactionId, error, response, methodName, arguments, version, ip⟩ := de
  cases messageType with
  | request =>
    rw [deserializeKind] at h
    dsimp only at h
    split at h
    · rw [mandatoryKeys_of_deserializeMethod h]
      simp only [forall_mem_cons]
      exact ⟨⟨.messageType, rfl, rfl⟩, ⟨.methodName, rfl, rfl⟩, ⟨.arguments, rfl, rfl⟩, nofun⟩
    · cases h
  | response =>
    rw [deserializeKind] at h
    dsimp only at h
    split at h
    · obtain ⟨resp, hresp⟩ := kind_of_deserializeAs h
      rw [hresp]
      simp only [MessageKind.mandatoryKeys, forall_mem_cons]
      exact ⟨⟨.messageType, rfl, rfl⟩, ⟨.response, rfl, rfl⟩, nofun⟩
    · cases h
  | error =>
    rw [deserializeKind] at h
    dsimp only at h
    split at h
    · obtain ⟨e, he⟩ := kind_of_deserializeAs h
      rw [he]
      simp only [MessageKind.mandatoryKeys, forall_mem_cons]
      exact ⟨⟨.messageType, rfl, rfl⟩, ⟨.error, rfl, rfl⟩, nofun⟩
    · cases h

lemma fromBytesRaw_eq_ok {A R : Type} {args resp}
    {m : RawMessage A R} (h : fromBytesRaw args resp buf = .ok m) :
    fromBytes (RawMessage.deserialize args resp) buf = .ok m := by
  rw [fromBytesRaw] at h
  split at h
  · next hm =>
    cases h
    exact hm
  · cases h

/-- **A message has the keys that its kind needs.** -/
theorem exists_dictKeys (h : deserialize buf = .ok m) :
    ∃ keys, fromBytes dictKeys buf = .ok keys ∧
      ∀ k ∈ m.kind.mandatoryKeys, ascii k ∈ keys := by
  obtain ⟨de, hraw, h⟩ := bind_eq_ok.mp h
  obtain ⟨keys, hkeys, hmem⟩ := RawMessage.exists_keys skippable_ignoredAny skippable_ignoredAny
    (fromBytesRaw_eq_ok hraw)
  refine ⟨keys, hkeys, fun k hk => ?_⟩
  obtain ⟨f, hf, rfl⟩ := isSome_of_deserializeKind h k hk
  exact (hmem f).mp hf

/-! ## The second pass finds what the first one has seen -/

lemma returns_fromBytesRaw {A R : Type} (args : Codec A) (resp : Codec R) (buf : ByteBuf) :
    (fromBytesRaw args resp buf).Returns := by
  rw [fromBytesRaw]
  split
  · exact returns_ok _
  · exact returns_err _

/-- A part that the first pass has found can be unwrapped. -/
lemma returns_deserializeAs {A R Part : Type} {args resp}
    (hargs : Skippable args.read) (hresp : Skippable resp.read)
    {part : RawMessage A R → Option Part} (kind : Part → MessageKind)
    (hde : fromBytesRaw .ignored .ignored buf = .ok de)
    (f : RawMessage.Field) (hpart : ∀ raw, (part raw).isSome = (raw.fields args resp f).isSome)
    (hf : (de.fields .ignored .ignored f).isSome) :
    (deserializeAs args resp part kind buf).Returns := by
  rw [deserializeAs, returns_bind]
  refine ⟨returns_fromBytesRaw args resp buf, fun raw hraw => ?_⟩
  have hsome : (part raw).isSome := by
    rw [hpart, RawMessage.isSome_fields_eq hargs hresp skippable_ignoredAny skippable_ignoredAny
      (fromBytesRaw_eq_ok hraw) (fromBytesRaw_eq_ok hde), hf]
  obtain ⟨x, hx⟩ := Option.isSome_iff_exists.mp hsome
  rw [hx]
  exact returns_ok _

lemma returns_deserializeMethod {methodName buf}
    (hde : fromBytesRaw .ignored .ignored buf = .ok de)
    (hf : (de.fields .ignored .ignored .arguments).isSome) :
    (deserializeMethod methodName buf).Returns := by
  have hrequest : ∀ {A : Type} (s : Struct A) (kind : A → MessageKind),
      (deserializeRequest s kind buf).Returns := fun s kind =>
    returns_deserializeAs s.skippable skippable_ignoredAny kind hde .arguments (fun _ => rfl) hf
  rw [deserializeMethod]
  repeat' split
  all_goals first | exact hrequest _ _ | exact returns_err _

/-- **No input makes `deserialize_message` panic.** -/
theorem returns_deserialize (buf : ByteBuf) : (deserialize buf).Returns := by
  rw [deserialize, returns_bind]
  refine ⟨returns_fromBytesRaw _ _ buf, fun de hde => ?_⟩
  obtain ⟨messageType, transactionId, error, response, methodName, arguments, version, ip⟩ := de
  cases messageType with
  | request =>
    rw [deserializeKind]
    dsimp only
    split
    · exact returns_deserializeMethod hde rfl
    · exact returns_err _
  | response =>
    rw [deserializeKind]
    dsimp only
    split
    · exact returns_deserializeAs skippable_ignoredAny struct.skippable _ hde .response
        (fun _ => rfl) rfl
    · exact returns_err _
  | error =>
    rw [deserializeKind]
    dsimp only
    split
    · exact returns_deserializeAs skippable_ignoredAny struct.skippable _ hde .error
        (fun _ => rfl) rfl
    · exact returns_err _

/-! ## Both ways -/

/-- **KRPC messages**: what is written is read back, as long as addresses are made of an ip address
and a port and lengths fit a `usize`; and what is read as a message of some kind is a dictionary
with the keys of that kind. -/
theorem message_roundTrip :
    (∀ m : Message, m.Plain → m.serialize.length < 2 ^ 64 → deserialize m.serialize = .ok m) ∧
      ∀ buf m, deserialize buf = .ok m →
        ∃ keys, fromBytes dictKeys buf = .ok keys ∧ ∀ k ∈ m.kind.mandatoryKeys, ascii k ∈ keys :=
  ⟨fun _ hplain hlen => deserialize_serialize hplain hlen, fun _ _ h => exists_dictKeys h⟩

/-- A response with a node, two peers and a token. -/
def answer : Message where
  kind := .response
    { id := ⟨List.replicate 20 1, rfl⟩
      values := some [.v4 ⟨.new 127 0 0 1, 6881⟩, .v6 ⟨⟨⟨List.replicate 16 2, rfl⟩⟩, 1, 0, 0⟩]
      nodes := some ⟨List.replicate 26 3, rfl⟩
      token := some [0, 255] }
  transactionId := [97, 97]

theorem message_roundTrip_answer :
    answer.Plain ∧ answer.serialize.length < 2 ^ 64 ∧
      deserialize answer.serialize = .ok answer := by
  have hplain : answer.Plain := by
    refine ⟨nofun, ?_⟩
    rintro values ⟨⟩
    decide
  have hlen : answer.serialize.length < 2 ^ 64 := by decide +kernel
  exact ⟨hplain, hlen, message_roundTrip.1 answer hplain hlen⟩

end Message

end Librtbit.Dht
