import Broko.Theorems.Codec

/-! The codec of content properties: the flag word names exactly the properties that are present, so
    what is written for well-formed properties is read back, and whatever is read is well formed and
    written again in no more bytes. -/

namespace Broko.Amqp.BasicProperties
open Reader

/-- A short string property, if it is there, fits its length byte. --/
def FitsShort (field : Option Bytes) : Prop := ∀ s ∈ field, s.length ≤ 255

/-- Properties that the decoder can return. --/
structure WellFormed (p : BasicProperties) : Prop where
  content_type : FitsShort p.content_type
  content_encoding : FitsShort p.content_encoding
  headers : ∀ t ∈ p.headers, entriesWellFormed 0 t
  correlation_id : FitsShort p.correlation_id
  reply_to : FitsShort p.reply_to
  expiration : FitsShort p.expiration
  message_id : FitsShort p.message_id
  type : FitsShort p.type
  user_id : FitsShort p.user_id
  app_id : FitsShort p.app_id
  cluster_id : FitsShort p.cluster_id

theorem wellFormed_empty : WellFormed {} := by
  constructor <;> intro s hs <;> cases hs

/-! ### Flags -/

theorem hasFlag_or (a b prop : UInt16) : hasFlag (a ||| b) prop = (hasFlag a prop || hasFlag b prop) := by
  have hand : (a ||| b) &&& prop = (a &&& prop) ||| (b &&& prop) := by
    apply UInt16.toBitVec_inj.mp
    ext i hi
    simp [Bool.and_or_distrib_right]
  have hzero : ∀ x y : UInt16, x ||| y = 0 ↔ x = 0 ∧ y = 0 := fun x y => by
    simp only [← UInt16.toBitVec_inj, UInt16.toBitVec_or]
    exact BitVec.or_eq_zero_iff
  rw [hasFlag, hand, Bool.eq_iff_iff]
  simp only [hasFlag, bne_iff_ne, ne_eq, hzero, Bool.or_eq_true, not_and_or]

theorem hasFlag_flagOf {α : Type} (field : Option α) (own prop : UInt16) :
    hasFlag (flagOf field own) prop = (field.isSome && hasFlag own prop) := by
  cases field <;> simp [flagOf, hasFlag]

/-- Each flag of the flag word is set exactly when its property is there: the fourteen masks are
    different bits. --/
theorem hasFlag_flags (p : BasicProperties) :
    hasFlag p.flags PROP_CONTENT_TYPE = p.content_type.isSome ∧
    hasFlag p.flags PROP_CONTENT_ENCODING = p.content_encoding.isSome ∧
    hasFlag p.flags PROP_HEADERS = p.headers.isSome ∧
    hasFlag p.flags PROP_DELIVERY_MODE = p.delivery_mode.isSome ∧
    hasFlag p.flags PROP_PRIORITY = p.priority.isSome ∧
    hasFlag p.flags PROP_CORRELATION_ID = p.correlation_id.isSome ∧
    hasFlag p.flags PROP_REPLY_TO = p.reply_to.isSome ∧
    hasFlag p.flags PROP_EXPIRATION = p.expiration.isSome ∧
    hasFlag p.flags PROP_MESSAGE_ID = p.message_id.isSome ∧
    hasFlag p.flags PROP_TIMESTAMP = p.timestamp.isSome ∧
    hasFlag p.flags PROP_TYPE = p.type.isSome ∧
    hasFlag p.flags PROP_USER_ID = p.user_id.isSome ∧
    hasFlag p.flags PROP_APP_ID = p.app_id.isSome ∧
    hasFlag p.flags PROP_CLUSTER_ID = p.cluster_id.isSome := by
  simp only [flags, hasFlag_or, hasFlag_flagOf]
  refine ⟨?_, ?_, ?_, ?_, ?_, ?_, ?_, ?_, ?_, ?_, ?_, ?_, ?_, ?_⟩ <;> rw [Bool.eq_iff_iff] <;>
    simp +decide only [Bool.or_eq_true, Bool.and_eq_true, and_true, and_false, or_false, false_or]

/-! ### One property -/

theorem reads_prop {α : Type} {flags prop : UInt16} {read : Read α} {write : α → Bytes} {field : Option α}
    (hflag : hasFlag flags prop = field.isSome) (h : ∀ a ∈ field, Reads read (write a) a) :
    Reads (readProp flags prop read) (writeProp field write) field := by
  unfold readProp
  cases field with
  | none =>
    rw [hflag]
    exact Reads.pure none
  | some a =>
    rw [hflag]
    exact (h a rfl).map

theorem accepts_prop {α : Type} {flags prop : UInt16} {read : Read α} {write : α → Bytes} {P : α → Prop}
    (h : Accepts read fun a used => P a ∧ (write a).length ≤ used.length) :
    Accepts (readProp flags prop read) fun field used =>
      (∀ a ∈ field, P a) ∧ (writeProp field write).length ≤ used.length := by
  unfold readProp
  split
  · refine h.map fun a used ha => ⟨fun a' ha' => ?_, ha.2⟩
    cases ha'
    exact ha.1
  · exact .pure ⟨by simp, by simp [writeProp]⟩

theorem accepts_shortProp : Accepts readShortString fun s used =>
    s.length ≤ 255 ∧ (writeShortString s).length ≤ used.length :=
  accepts_shortString.mono fun s used hs => ⟨hs.1, by rw [hs.2]; exact length_writeShortString_le s⟩

theorem accepts_byteProp : Accepts readUint8 fun v used => True ∧ (writeUint8 v).length ≤ used.length :=
  accepts_uint8.mono fun _ used hu => ⟨trivial, by rw [hu]; rfl⟩

theorem accepts_timeProp : Accepts readUint64 fun v used => True ∧ (writeUint64 v).length ≤ used.length :=
  accepts_uint64.mono fun _ used hu => ⟨trivial, by rw [hu, length_writeUint64]⟩

theorem accepts_tableProp : Accepts (readFieldTable 0) fun t used =>
    entriesWellFormed 0 t ∧ (writeFieldTable t).length ≤ used.length :=
  (accepts_fieldTable 0).mono fun _ _ h => h.2

/-! ### All of them -/

theorem length_headers_le (p : BasicProperties) {t : FieldTable} (ht : t ∈ p.headers) :
    (writeFieldTable t).length ≤ (encode p).length := by
  have : (writeProp p.headers writeFieldTable) = writeFieldTable t := by rw [Option.mem_def.mp ht]; rfl
  simp only [encode, List.length_append, this]
  omega

/-- What is written for well-formed properties is read back, whatever follows it. --/
theorem reads_properties {p : BasicProperties} (hw : p.WellFormed) (hs : (encode p).length < 2 ^ 32) :
    Reads decode (encode p) p := by
  obtain ⟨f1, f2, f3, f4, f5, f6, f7, f8, f9, f10, f11, f12, f13, f14⟩ := hasFlag_flags p
  refine (reads_uint16 p.flags).bind ?_
  refine (reads_prop f1 fun s h => reads_shortString (hw.content_type s h)).bind ?_
  refine (reads_prop f2 fun s h => reads_shortString (hw.content_encoding s h)).bind ?_
  refine (reads_prop f3 fun t h => reads_fieldTable (Nat.zero_le _) (hw.headers t h)
    (Nat.lt_of_le_of_lt (length_headers_le p h) hs)).bind ?_
  refine (reads_prop f4 fun v _ => reads_uint8 v).bind ?_
  refine (reads_prop f5 fun v _ => reads_uint8 v).bind ?_
  refine (reads_prop f6 fun s h => reads_shortString (hw.correlation_id s h)).bind ?_
  refine (reads_prop f7 fun s h => reads_shortString (hw.reply_to s h)).bind ?_
  refine (reads_prop f8 fun s h => reads_shortString (hw.expiration s h)).bind ?_
  refine (reads_prop f9 fun s h => reads_shortString (hw.message_id s h)).bind ?_
  refine (reads_prop f10 fun v _ => reads_uint64 v).bind ?_
  refine (reads_prop f11 fun s h => reads_shortString (hw.type s h)).bind ?_
  refine (reads_prop f12 fun s h => reads_shortString (hw.user_id s h)).bind ?_
  refine (reads_prop f13 fun s h => reads_shortString (hw.app_id s h)).bind ?_
  exact (reads_prop f14 fun s h => reads_shortString (hw.cluster_id s h)).map

/-- Properties that `decode` returns can be written again, in no more bytes than they were read from. --/
theorem accepts_properties : Accepts decode fun p used => p.WellFormed ∧ (encode p).length ≤ used.length := by
  refine accepts_uint16.bind fun _ u0 h0 => ?_
  refine (accepts_prop accepts_shortProp).bind fun _ u1 h1 => ?_
  refine (accepts_prop accepts_shortProp).bind fun _ u2 h2 => ?_
  refine (accepts_prop accepts_tableProp).bind fun _ u3 h3 => ?_
  refine (accepts_prop accepts_byteProp).bind fun _ u4 h4 => ?_
  refine (accepts_prop accepts_byteProp).bind fun _ u5 h5 => ?_
  refine (accepts_prop accepts_shortProp).bind fun _ u6 h6 => ?_
  refine (accepts_prop accepts_shortProp).bind fun _ u7 h7 => ?_
  refine (accepts_prop accepts_shortProp).bind fun _ u8 h8 => ?_
  refine (accepts_prop accepts_shortProp).bind fun _ u9 h9 => ?_
  refine (accepts_prop accepts_timeProp).bind fun _ u10 h10 => ?_
  refine (accepts_prop accepts_shortProp).bind fun _ u11 h11 => ?_
  refine (accepts_prop accepts_shortProp).bind fun _ u12 h12 => ?_
  refine (accepts_prop accepts_shortProp).bind fun _ u13 h13 => ?_
  refine (accepts_prop accepts_shortProp).map fun _ u14 h14 => ?_
  refine ⟨⟨h1.1, h2.1, h3.1, h6.1, h7.1, h8.1, h9.1, h11.1, h12.1, h13.1, h14.1⟩, ?_⟩
  simp only [encode, List.length_append, length_writeUint16, h0]
  omega

end Broko.Amqp.BasicProperties

/-! ### The round trip -/

namespace Broko.Amqp
open Reader BasicProperties

/-- A table that `writeFieldTable` can write so that it is read back: names and short strings of at most 255 bytes,
    keys in the order of the map, nesting within the limit, and sizes that fit their length prefix. --/
structure FieldTable.Encodable (t : FieldTable) : Prop where
  wellFormed : entriesWellFormed 0 t
  size : (writeFieldTable t).length < 2 ^ 32

structure BasicProperties.Encodable (p : BasicProperties) : Prop where
  wellFormed : p.WellFormed
  size : p.encode.length < 2 ^ 32

/-- What a reader accepts from an input shorter than 2^32 is written again in less than 2^32 bytes. --/
theorem Accepts.written_lt {α : Type} {x : Read α} {P : α → Prop} {write : α → Bytes}
    (hx : Accepts x fun a used => P a ∧ (write a).length ≤ used.length) {input : Bytes} {a : α} {b : Buffer}
    (hinput : input.length < 2 ^ 32) (h : x (Buffer.ofBytes input) = .ok (a, b)) :
    P a ∧ (write a).length < 2 ^ 32 := by
  obtain ⟨used, hused, -, ha, hlen⟩ := hx _ _ _ h
  refine ⟨ha, ?_⟩
  have happend : input.length = used.length + b.unread.length := by
    rw [show input = used ++ b.unread from hused, List.length_append]
  omega

theorem FieldTable.Encodable.reads {t : FieldTable} (h : t.Encodable) :
    Reads (readFieldTable 0) (writeFieldTable t) t :=
  reads_fieldTable (Nat.zero_le _) h.wellFormed h.size

theorem BasicProperties.Encodable.reads {p : BasicProperties} (h : p.Encodable) : Reads decode p.encode p :=
  reads_properties h.wellFormed h.size

theorem FieldTable.encodable_of_read {input : Bytes} {t : FieldTable} {b : Buffer} (hinput : input.length < 2 ^ 32)
    (h : readFieldTable 0 (Buffer.ofBytes input) = .ok (t, b)) : t.Encodable := by
  obtain ⟨hwell, hsize⟩ := Accepts.written_lt accepts_tableProp hinput h
  exact ⟨hwell, hsize⟩

theorem BasicProperties.encodable_of_decode {input : Bytes} {p : BasicProperties} {b : Buffer}
    (hinput : input.length < 2 ^ 32) (h : decode (Buffer.ofBytes input) = .ok (p, b)) : p.Encodable := by
  obtain ⟨hwell, hsize⟩ := Accepts.written_lt accepts_properties hinput h
  exact ⟨hwell, hsize⟩

/-- Tables and properties are read back from what is written for them, with whatever follows left unread; and what is
    read from any input is such a table, so reading, writing and reading again gives the same value. --/
theorem codec_round_trip :
    (∀ t : FieldTable, t.Encodable → ∀ rest,
      readFieldTable 0 (Buffer.ofBytes (writeFieldTable t ++ rest)) = .ok (t, ⟨(writeFieldTable t).length, rest⟩)) ∧
    (∀ p : BasicProperties, p.Encodable → ∀ rest,
      decode (Buffer.ofBytes (p.encode ++ rest)) = .ok (p, ⟨p.encode.length, rest⟩)) ∧
    (∀ (input : Bytes) (t : FieldTable) (b : Buffer), input.length < 2 ^ 32 →
      readFieldTable 0 (Buffer.ofBytes input) = .ok (t, b) →
      t.Encodable ∧ readFieldTable 0 (Buffer.ofBytes (writeFieldTable t)) = .ok (t, ⟨(writeFieldTable t).length, []⟩)) ∧
    (∀ (input : Bytes) (p : BasicProperties) (b : Buffer), input.length < 2 ^ 32 →
      decode (Buffer.ofBytes input) = .ok (p, b) →
      p.Encodable ∧ decode (Buffer.ofBytes p.encode) = .ok (p, ⟨p.encode.length, []⟩)) := by
  have htable : ∀ t : FieldTable, t.Encodable → ∀ rest,
      readFieldTable 0 (Buffer.ofBytes (writeFieldTable t ++ rest)) = .ok (t, ⟨(writeFieldTable t).length, rest⟩) := by
    intro t ht rest
    simpa [Buffer.ofBytes] using ht.reads 0 rest
  have hprops : ∀ p : BasicProperties, p.Encodable → ∀ rest,
      decode (Buffer.ofBytes (p.encode ++ rest)) = .ok (p, ⟨p.encode.length, rest⟩) := by
    intro p hp rest
    simpa [Buffer.ofBytes] using hp.reads 0 rest
  refine ⟨htable, hprops, fun input t b hinput h => ?_, fun input p b hinput h => ?_⟩
  · have ht := FieldTable.encodable_of_read hinput h
    refine ⟨ht, ?_⟩
    simpa using htable t ht []
  · have hp := BasicProperties.encodable_of_decode hinput h
    refine ⟨hp, ?_⟩
    simpa using hprops p hp []

/-- A nested table before two more bytes. --/
theorem codec_round_trip_nested :
    readFieldTable 0 (Buffer.ofBytes (writeFieldTable [(ascii "a", .array [.boolean true, .longInt (-7)]),
        (ascii "t", .table [(ascii "x", .shortString (ascii "y"))])] ++ [1, 2])) =
      .ok ([(ascii "a", .array [.boolean true, .longInt (-7)]),
        (ascii "t", .table [(ascii "x", .shortString (ascii "y"))])], ⟨30, [1, 2]⟩) := by
  have ht : FieldTable.Encodable [(ascii "a", .array [.boolean true, .longInt (-7)]),
      (ascii "t", .table [(ascii "x", .shortString (ascii "y"))])] := by
    refine ⟨?_, by decide⟩
    simp [entriesWellFormed, elementsWellFormed, FieldValue.WellFormed, MAX_FIELD_TABLE_DEPTH]
    decide
  exact codec_round_trip.1 _ ht [1, 2]

end Broko.Amqp
